/-
# Programs

A well-formed file is scanned without a diagnostic to a row of items.

| item | tokens |
| --- | --- |
| class | `class`, a name, a rest |
| import | `import`, a string |
| other definition | a name, `public`, `private` or `protected`, a rest |

A rest is a row of tokens without opening braces and semicolons, closed by a semicolon or by a
block. A block stands in braces, and between them braces are balanced. The expansion of a row of
items has behind each import the expansion of the file that it leads to.
-/

import ClassIndex.Proofs.Scanner.Tokens
import ClassIndex.SearchPath

namespace ClassIndex

namespace Token

/-- Rows of tokens in which every brace has its partner. -/
inductive Balanced : List Scanned → Prop
  | nil : Balanced []
  | other {t : Scanned} {ts : List Scanned} : t.kind ≠ .openCurly → t.kind ≠ .closeCurly →
      Balanced ts → Balanced (t :: ts)
  | block {o c : Scanned} {inner ts : List Scanned} : o.kind = .openCurly →
      c.kind = .closeCurly → Balanced inner → Balanced ts → Balanced (o :: (inner ++ c :: ts))

/-- A row of tokens in which no block and no end of a definition is. -/
def Head (ts : List Scanned) : Prop := ∀ t ∈ ts, t.kind ≠ .openCurly ∧ t.kind ≠ .semicolon

/-- What closes a definition, after whatever stands in its head. -/
inductive Rest : List Scanned → Prop
  | bare {head : List Scanned} {s : Scanned} : Head head → s.kind = .semicolon →
      Rest (head ++ [s])
  | block {head body : List Scanned} {o c : Scanned} : Head head → o.kind = .openCurly →
      Balanced body → c.kind = .closeCurly → Rest (head ++ o :: (body ++ [c]))

/-- The words, beside a name, that a definition other than a class begins with. -/
def BeginsDefinition (kind : Kind) : Prop :=
  kind = .identifier ∨ kind = .publicWord ∨ kind = .privateWord ∨ kind = .protectedWord

end Token

open Token (Scanned Rest)

/-- What an item is. -/
inductive Form where
  | newClass (name : String)
  | importOf (name : String)
  | other
deriving DecidableEq

/-- The tokens of an item. -/
inductive Form.Spelled : Form → List Scanned → Prop
  | newClass {word name : Scanned} {rest : List Scanned} : word.kind = .classWord →
      name.kind = .identifier → Rest rest →
      Spelled (.newClass name.text) (word :: name :: rest)
  | importOf {word name : Scanned} : word.kind = .importWord → name.kind = .quoted →
      Spelled (.importOf name.text) [word, name]
  | other {word : Scanned} {rest : List Scanned} : Token.BeginsDefinition word.kind →
      Rest rest → Spelled .other (word :: rest)

/-- An item of a file. -/
structure Item where
  form : Form
  tokens : List Scanned
  spelled : form.Spelled tokens

namespace Item

/-- The class that an item defines. -/
def className? (item : Item) : Option String :=
  match item.form with
  | .newClass name => some name
  | _ => none

/-- The name that an item imports. -/
def importName? (item : Item) : Option String :=
  match item.form with
  | .importOf name => some name
  | _ => none

/-- The tokens of a row of items. -/
def tokensOf (items : List Item) : List Scanned := items.flatMap tokens

/-- The names of the classes of a row of items. -/
def classNames (items : List Item) : List String := items.filterMap className?

/-- The names that a row of items imports. -/
def importNames (items : List Item) : List String := items.filterMap importName?

variable (item : Item) (items items' : List Item)

@[simp] theorem tokensOf_cons : tokensOf (item :: items) = item.tokens ++ tokensOf items := rfl

@[simp] theorem tokensOf_append : tokensOf (items ++ items') = tokensOf items ++ tokensOf items' :=
  List.flatMap_append

@[simp] theorem classNames_cons :
    classNames (item :: items) = item.className?.toList ++ classNames items := by
  cases h : item.className? <;> simp [classNames, h]

@[simp] theorem classNames_append :
    classNames (items ++ items') = classNames items ++ classNames items' :=
  List.filterMap_append

@[simp] theorem importNames_cons :
    importNames (item :: items) = item.importName?.toList ++ importNames items := by
  cases h : item.importName? <;> simp [importNames, h]

@[simp] theorem importNames_append :
    importNames (items ++ items') = importNames items ++ importNames items' :=
  List.filterMap_append

theorem className?_of_importName? {item : Item} {name : String}
    (h : item.importName? = some name) : item.className? = none := by
  unfold importName? at h
  unfold className?
  split at h
  · rename_i hform; rw [hform]
  · cases h

end Item

namespace FileTree

/-- A new scanner reads these tokens from a file and records these diagnostics on the way. -/
def Scans (t : FileTree) (p : ScanPreferences) (path : String) (ts : List Scanned)
    (events : List Diagnostic.Event) : Prop :=
  ∃ s, (Scanner.new p .empty).openFile t path = (.ok (), s) ∧ s.scan.1 = ts ∧
    s.scan.2.journal.diagnostics = events

/-- A file consists of these items, and nothing is amiss in it. -/
def WellFormed (t : FileTree) (p : ScanPreferences) (path : String) (items : List Item) : Prop :=
  t.Scans p path (Item.tokensOf items) []

end FileTree

/-- The expansion of a row of items in which imports are nested at most so deep: every import
leads to a well-formed file, and the expansion of that file stands behind it. -/
inductive Expands (t : FileTree) (p : ScanPreferences) (w : SearchPath) :
    Nat → List Item → List Item → Prop
  | nil {n : Nat} : Expands t p w n [] []
  | keep {n : Nat} {item : Item} {items out : List Item} : item.importName? = none →
      Expands t p w n items out → Expands t p w n (item :: items) (item :: out)
  | follow {n : Nat} {item : Item} {name : String} {found : FoundImport}
      {items inner out out' : List Item} : item.importName? = some name →
      w.resolve t name = .ok found → t.WellFormed p found.path inner →
      Expands t p w n inner out → Expands t p w (n + 1) items out' →
      Expands t p w (n + 1) (item :: items) (item :: (out ++ out'))

end ClassIndex
