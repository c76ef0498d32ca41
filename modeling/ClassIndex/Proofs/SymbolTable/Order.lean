/-
# Names in order

The names of a symbol table are listed in the order of their bytes, each once, whatever order they
lie in in the table (`Keeps.names_pairwise`, `Keeps.nodup_names`). So tables of the same keys list
the same names (`Keeps.names_eq`). Declarations of different keys leave a table that stands for
the map of them all, which is the same in every order (`keeps_declared`, `declared_perm`).
-/

import ClassIndex.Proofs.SymbolTable.Register
import ClassIndex.Proofs.Text.Order

namespace ClassIndex
namespace SymbolTable

open Diagnostic (Journal)

variable {t t' : SymbolTable} {r r' : Register} {j : Journal} {call : Call} {calls : List Call}

/-! ## The list of names -/

theorem names_pairwise_le (t : SymbolTable) : t.names.Pairwise (· ≤ ·) := by
  have hle (a b : String) : (! decide (b < a)) = true ↔ a ≤ b := by
    rw [Bool.not_eq_true', decide_eq_false_iff_not, String.not_lt]
  have htrans (a b c : String) (hab : (! decide (b < a)) = true)
      (hbc : (! decide (c < b)) = true) : (! decide (c < a)) = true :=
    (hle a c).2 (String.le_trans ((hle a b).1 hab) ((hle b c).1 hbc))
  have htotal (a b : String) : ((! decide (b < a)) || ! decide (a < b)) = true := by
    rw [Bool.or_eq_true, hle, hle]
    exact String.le_total a b
  exact (List.pairwise_mergeSort htrans htotal t.table.keys).imp fun h => (hle _ _).1 h

namespace Keeps

theorem nodup_names (h : Keeps t r) : t.names.Nodup := by
  obtain ⟨m, hm, -⟩ := h.holds
  exact (List.mergeSort_perm _ _).nodup_iff.2 (h.sound.refines hm).nodup_keys

/-- **The names are listed in the order of their bytes.** -/
theorem names_pairwise (h : Keeps t r) :
    t.names.Pairwise fun a b => Text.utf8 a < Text.utf8 b := by
  refine (t.names_pairwise_le.and h.nodup_names).imp fun ⟨hle, hne⟩ => Text.utf8_lt_utf8 ?_
  by_contra hlt
  exact hne (String.le_antisymm hle (String.not_lt.1 hlt))

/-- The names listed are a row of different keys, if it has just the keys of the register. -/
theorem names_perm (h : Keeps t r) {keys : List String} (hnodup : keys.Nodup)
    (hkeys : ∀ key, key ∈ r.symbols ↔ key ∈ keys) : t.names.Perm keys :=
  (List.perm_ext_iff_of_nodup h.nodup_names hnodup).2 fun key => (h.mem_names key).trans (hkeys key)

/-- **Tables of the same keys list the same names.** -/
theorem names_eq (h : Keeps t r) (h' : Keeps t' r')
    (hkeys : ∀ key, key ∈ r.symbols ↔ key ∈ r'.symbols) : t.names = t'.names :=
  List.Perm.eq_of_pairwise (fun _ _ _ _ => String.le_antisymm) t.names_pairwise_le
    t'.names_pairwise_le
    (h.names_perm h'.nodup_names fun key => (hkeys key).trans (h'.mem_names key).symm)

theorem resolve_eq (h : Keeps t r) (h' : Keeps t' r') (hsymbols : r.symbols = r'.symbols)
    (j : Journal) (key : String) : t.resolve j key = t'.resolve j key := by
  rw [SymbolTable.resolve, SymbolTable.resolve, h.lookup_eq, h'.lookup_eq, hsymbols]

end Keeps

/-! ## Declarations -/

/-- The name that is being built up after a call. -/
def Call.rename (key : String) : Call → String
  | .begin => ""
  | .addName name => key ++ "$" ++ name
  | .addType type => key ++ "@" ++ type
  | .truncate => Register.firstStep key
  | _ => key

/-- A call that does nothing but build up a name. -/
inductive Call.Naming : Call → Prop
  | begin : Naming .begin
  | addName (name : String) : Naming (.addName name)
  | addType (type : String) : Naming (.addType type)
  | truncate : Naming .truncate

/-- A symbol to be declared, and the calls that build up its name. -/
structure Declaration where
  naming : List Call
  isNaming : ∀ call ∈ naming, call.Naming
  symbol : Symbol

namespace Declaration

/-- The key under which the symbol is declared. -/
def key (d : Declaration) : String := d.naming.foldl Call.rename ""

/-- The calls that declare the symbol under a name of its own. -/
def toCalls (d : Declaration) : List Call := .begin :: d.naming ++ [.declare d.symbol]

/-- The symbols after a declaration. -/
def into (symbols : Finmap fun _ : String => Symbol) (d : Declaration) :
    Finmap fun _ : String => Symbol :=
  symbols.insert d.key (d.symbol.named d.key)

end Declaration

/-- The symbols of a row of declarations. -/
def declared (ds : List Declaration) : Finmap fun _ : String => Symbol :=
  ds.foldl Declaration.into ∅

variable {d : Declaration} {ds ds' : List Declaration}

theorem run_append (t : SymbolTable) (j : Journal) (calls later : List Call) :
    (t.run j (calls ++ later)).2 = ((t.run j calls).2.1.run (t.run j calls).2.2 later).2 := by
  induction calls generalizing t j with
  | nil => rfl
  | cons call calls ih => exact ih _ _

namespace Keeps

theorem named (h : Keeps t r) (j : Journal) (hcall : call.Naming) :
    Keeps (t.answer j call).2.1 { r with key := call.rename r.key } := by
  cases hcall with
  | begin => exact h.beginDecoration
  | addName name => exact h.addComponent (by decide) (by decide)
  | addType type => exact h.addComponent (by decide) (by decide)
  | truncate => exact h.truncateToClass

theorem run_naming (h : Keeps t r) (j : Journal) (hcalls : ∀ call ∈ calls, call.Naming) :
    Keeps (t.run j calls).2.1 { r with key := calls.foldl Call.rename r.key } := by
  induction calls generalizing t r j with
  | nil => exact h
  | cons call calls ih =>
    obtain ⟨hcall, hcalls⟩ := List.forall_mem_cons.1 hcalls
    exact ih (h.named j hcall) _ hcalls

/-- A declaration under a free key adds its symbol. -/
theorem run_declaration (h : Keeps t r) (j : Journal) (hfree : d.key ∉ r.symbols)
    (hfits : d.symbol.Fits) :
    Keeps (t.run j d.toCalls).2.1 ⟨d.into r.symbols, d.key⟩ := by
  have hnamed := h.beginDecoration.run_naming j d.isNaming
  obtain ⟨r', events, ha, h', -⟩ :=
    hnamed.declare (t.beginDecoration.run j d.naming).2.2 d.symbol
  have hrun : (t.run j d.toCalls).2.1
      = ((t.beginDecoration.run j d.naming).2.1.answer
          (t.beginDecoration.run j d.naming).2.2 (.declare d.symbol)).2.1 := by
    rw [show (t.run j d.toCalls).2 = (t.beginDecoration.run j (d.naming ++ [.declare d.symbol])).2
      from rfl, run_append]
    rfl
  rw [hrun]
  generalize (t.beginDecoration.run j d.naming).2.1.answer _ (.declare d.symbol) = step at ha h' ⊢
  obtain ⟨a, t', j'⟩ := step
  cases ha with
  | declareMismatch hmisfits => exact absurd hfits hmisfits
  | declarePresent _ hmem => exact absurd hmem hfree
  | declare => exact h'

/-- Declarations under different free keys add their symbols. -/
theorem run_declarations (h : Keeps t r) (j : Journal) (hnodup : (ds.map Declaration.key).Nodup)
    (hfree : ∀ d ∈ ds, d.key ∉ r.symbols) (hfits : ∀ d ∈ ds, d.symbol.Fits) :
    ∃ key, Keeps (t.run j (ds.flatMap Declaration.toCalls)).2.1
      ⟨ds.foldl Declaration.into r.symbols, key⟩ := by
  induction ds generalizing t r j with
  | nil => exact ⟨r.key, h⟩
  | cons d ds ih =>
    obtain ⟨hnew, hnodup⟩ := List.nodup_cons.1 hnodup
    obtain ⟨hd, hds⟩ := List.forall_mem_cons.1 hfree
    obtain ⟨hfit, hfits⟩ := List.forall_mem_cons.1 hfits
    have hleft : ∀ d' ∈ ds, d'.key ∉ d.into r.symbols := by
      intro d' hd' hmem
      rcases Finmap.mem_insert.1 hmem with heq | hmem
      · exact hnew (heq ▸ List.mem_map_of_mem hd')
      · exact hds d' hd' hmem
    obtain ⟨key, hkeeps⟩ :=
      ih (h.run_declaration j hd hfit) (t.run j d.toCalls).2.2 hnodup hleft hfits
    rw [List.flatMap_cons, run_append]
    exact ⟨key, hkeeps⟩

end Keeps

/-- **Declarations of different keys are all stored.** -/
theorem keeps_declared (j : Journal) (hnodup : (ds.map Declaration.key).Nodup)
    (hfits : ∀ d ∈ ds, d.symbol.Fits) :
    ∃ key, Keeps (empty.run j (ds.flatMap Declaration.toCalls)).2.1 ⟨declared ds, key⟩ :=
  keeps_empty.run_declarations j hnodup (fun _ _ => Finmap.notMem_empty) hfits

/-! ## Their order -/

theorem mem_foldl_into (symbols : Finmap fun _ : String => Symbol) (key : String) :
    key ∈ ds.foldl Declaration.into symbols ↔ key ∈ symbols ∨ key ∈ ds.map Declaration.key := by
  induction ds generalizing symbols with
  | nil => simp
  | cons d ds ih =>
    rw [List.foldl_cons, ih, Declaration.into, Finmap.mem_insert, List.map_cons, List.mem_cons]
    tauto

theorem mem_declared (key : String) : key ∈ declared ds ↔ key ∈ ds.map Declaration.key := by
  rw [declared, mem_foldl_into, or_iff_right Finmap.notMem_empty]

/-- **Symbols under different keys are the same in every order.** -/
theorem declared_perm (h : ds.Perm ds') (hnodup : (ds.map Declaration.key).Nodup) :
    declared ds = declared ds' := by
  refine h.foldl_eq' (fun d hd d' hd' symbols => ?_) ∅
  by_cases heq : d.key = d'.key
  · rw [List.inj_on_of_nodup_map hnodup hd hd' heq]
  · exact Finmap.insert_insert_of_ne symbols heq

theorem card_declared (hnodup : (ds.map Declaration.key).Nodup) :
    (declared ds).keys.card = ds.length := by
  have hkeys : (declared ds).keys = (ds.map Declaration.key).toFinset := by
    ext key
    rw [Finmap.mem_keys, mem_declared, List.mem_toFinset]
  rw [hkeys, List.toFinset_card_of_nodup hnodup, List.length_map]

end SymbolTable
end ClassIndex
