/-
# The directories searched, in order

The arguments are read from left to right, and the value of an option is passed over with it, so a
value counts as nothing else, even if it looks like an option (`namedDirectories`). The directories
named are searched before all others, in the order in which they are named
(`directories_in_order`):

| searched | directories |
| --- | --- |
| first | the values of `-i` and `--include` |
| then | those of the settings |
| last, if they are wanted | the parts of `G_INCLUDE` between colons |

Each is put in front of those before it, so the last one named is put there first. Every input is
processed from an index that searches in these directories (`Processes`, `Indexer.SearchesIn`).
-/

import ClassIndex.CommandLine.Program
import ClassIndex.Proofs.Indexer.Search

namespace ClassIndex
namespace Options

variable {o o' : Options} {args : List String} {arg : String}

/-! ## The values of options -/

/-- The directories that a command line names, in order: the values of the options for one. The
argument behind an option that takes a value is its value, whatever it looks like. -/
def namedDirectories : List String → List String
  | option :: value :: rest =>
    if option = "-i" ∨ option = "--include" then value :: namedDirectories rest
    else if option = "-v" ∨ option = "--verbose" ∨ option = "--config" then namedDirectories rest
    else namedDirectories (value :: rest)
  | _ => []

theorem meaning_eq_includeDir_iff : meaning arg = .includeDir ↔ arg = "-i" ∨ arg = "--include" := by
  constructor
  · intro h
    unfold meaning at h
    repeat' split at h
    all_goals grind
  · rintro (rfl | rfl) <;> rfl

/-- The options with a value that is no directory. -/
theorem meaning_takesOther_iff : meaning arg = .verbosity ∨ meaning arg = .settingsFile ↔
    arg = "-v" ∨ arg = "--verbose" ∨ arg = "--config" := by
  constructor
  · intro h
    unfold meaning at h
    repeat' split at h
    all_goals grind
  · rintro (rfl | rfl | rfl)
    · exact .inl rfl
    · exact .inl rfl
    · exact .inr rfl

theorem namedDirectories_includeDir (h : meaning arg = .includeDir) (value : String)
    (rest : List String) :
    namedDirectories (arg :: value :: rest) = value :: namedDirectories rest := by
  rw [namedDirectories, if_pos (meaning_eq_includeDir_iff.1 h)]

theorem namedDirectories_takesOther (h : meaning arg = .verbosity ∨ meaning arg = .settingsFile)
    (value : String) (rest : List String) :
    namedDirectories (arg :: value :: rest) = namedDirectories rest := by
  have hother : meaning arg ≠ .includeDir := by
    rcases h with h | h <;> rw [h] <;> decide
  rw [namedDirectories, if_neg (mt meaning_eq_includeDir_iff.2 hother),
    if_pos (meaning_takesOther_iff.1 h)]

theorem namedDirectories_alone (hinclude : meaning arg ≠ .includeDir)
    (hother : ¬ (meaning arg = .verbosity ∨ meaning arg = .settingsFile)) (rest : List String) :
    namedDirectories (arg :: rest) = namedDirectories rest := by
  cases rest with
  | nil => rfl
  | cons value rest =>
    rw [namedDirectories, if_neg (mt meaning_eq_includeDir_iff.2 hinclude),
      if_neg (mt meaning_takesOther_iff.2 hother)]

/-- **The directories read are those that the command line names,** behind those read before. -/
theorem includeDirs_of_parse (h : (parse o args).2 = .ok o') :
    o'.includeDirs = o.includeDirs ++ namedDirectories args := by
  -- an option with a value and one without each take their arguments off both rows
  fun_induction parse o args with
  | case1 o =>
    cases h
    exact (List.append_nil _).symm
  | case3 o arg harg dir rest ih =>
    rw [ih h, namedDirectories_includeDir harg, List.append_assoc]
    rfl
  | case5 o arg harg raw rest n hn ih =>
    rw [ih h, namedDirectories_takesOther (.inl harg)]
  | case8 o arg harg path rest ih =>
    rw [ih h, namedDirectories_takesOther (.inr harg)]
  | case2 o arg rest harg ih | case10 o arg rest harg ih | case11 o arg rest harg ih
  | case13 o arg rest harg ih =>
    rw [ih h, namedDirectories_alone (by simp [harg]) (by simp [harg])]
  | case12 o arg rest harg unknown result hparse ih =>
    rw [hparse] at ih
    rw [ih h, namedDirectories_alone (by simp [harg]) (by simp [harg])]
  | case4 | case6 | case7 | case9 => cases h

/-! ## The directories of a run -/

/-- **The directories named are put in front of those of the settings, in their order.** -/
theorem imports_apply (o : Options) (s : Settings) : (o.apply s).imports
    = { s.imports with searchPath := o.includeDirs ++ s.imports.searchPath } := by
  have hadd (dirs : List String) : (dirs.foldr (fun dir s => s.addDirectory dir) s).imports
      = { s.imports with searchPath := dirs ++ s.imports.searchPath } := by
    induction dirs with
    | nil => rfl
    | cons dir dirs ih => rw [List.foldr_cons, Settings.addDirectory, ih, List.cons_append]
  exact hadd o.includeDirs

end Options

namespace CommandLine

/-- The settings that the program loads: those in the file that an option names, or those of the
environment. -/
def loaded (env : Environment) (t : FileTree) (o : Options) : Except SettingsError Settings :=
  o.settingsFile?.elim (Settings.load env t) (Settings.ofFile env t)

/-- Each input is processed with the directories of the settings, as the options change them. -/
theorem run_of_loaded {args : List String} {o : Options} {env : Environment} {s : Settings}
    {t : FileTree} (h : (Options.parse {} args).2 = .ok o) (hhelp : o.help = false)
    (hinputs : o.inputs ≠ []) (hloaded : loaded env t o = .ok s) (program time : String) :
    ∃ streams, run program args env t time = processAll env t time o (o.apply s) streams := by
  have hnone : o.inputs.isEmpty = false := by simpa using hinputs
  unfold run
  rcases hparse : Options.parse {} args with ⟨unknown, parsed⟩
  rw [hparse] at h
  obtain rfl : parsed = .ok o := h
  dsimp only
  rw [hhelp, hnone, if_neg Bool.false_ne_true, if_neg Bool.false_ne_true]
  unfold loaded at hloaded
  cases hfile : o.settingsFile? with
  | none =>
    rw [hfile, Option.elim_none] at hloaded
    dsimp only
    rw [hloaded]
    exact ⟨_, rfl⟩
  | some path =>
    rw [hfile, Option.elim_some] at hloaded
    dsimp only
    rw [hloaded]
    exact ⟨_, rfl⟩

/-! ## The inputs -/

/-- What an input comes to, from this index on: a listing of its tokens or a run, and behind a run
that has ended a listing of the symbols, as the options ask. -/
inductive Processed (t : FileTree) (o : Options) (input : String) (x : Indexer) :
    Except IndexError Summary × Indexer → Prop
  | listing {bound : Nat} {r : Except IndexError Summary × Indexer} : o.listsTokens = true →
      Indexer.DumpEnds t input default x bound r → Processed t o input x r
  | run {bound : Nat} {r : Except IndexError Summary × Indexer} : o.listsTokens = false →
      o.listsSymbols = false → Indexer.RunEnds t input x bound r → Processed t o input x r
  | stopped {bound : Nat} {e : IndexError} {y : Indexer} : o.listsTokens = false →
      Indexer.RunEnds t input x bound (.error e, y) → Processed t o input x (.error e, y)
  | symbols {bound : Nat} {summary : Summary} {y z : Indexer} {result : Except IndexError Unit} :
      o.listsTokens = false → o.listsSymbols = true →
      Indexer.RunEnds t input x bound (.ok summary, y) → y.writeSymbols default = (result, z) →
      Processed t o input x (result.map fun _ => summary, z)

/-- What is told of an input: its journal, and then its counts or its error. -/
inductive Told (console : Console) (p : Progress) (input : String) :
    Except IndexError Summary × Indexer → Progress → Prop
  | counts {summary : Summary} {x : Indexer} : Told console p input (.ok summary, x)
      ⟨(console.showAll p.streams x.journal).say (input ++ ": " ++ summary.text),
        Console.fileLog p.files x.journal, p.failed || !summary.isClean⟩
  | error {e : IndexError} {x : Indexer} : Told console p input (.error e, x)
      ⟨(failureLines e).foldl Streams.complain (console.showAll p.streams x.journal),
        Console.fileLog p.files x.journal, true⟩

/-- Inputs are processed one after the other, each from this index on. -/
inductive Processes (t : FileTree) (o : Options) (x : Indexer) (console : Console) :
    Progress → List String → Progress → Prop
  | nil (p : Progress) : Processes t o x console p [] p
  | cons {p q p' : Progress} {input : String} {inputs : List String}
      {r : Except IndexError Summary × Indexer} : Processed t o input x r →
      Told console p input r q → Processes t o x console q inputs p' →
      Processes t o x console p (input :: inputs) p'

theorem processed (t : FileTree) (o : Options) (input : String) (x : Indexer) :
    Processed t o input x (process t o input x) := by
  unfold process
  by_cases hlist : o.listsTokens = true
  · rw [if_pos hlist]
    exact .listing hlist (Indexer.dumpEnds (Nat.le_refl (t.largest + 2)) input default x)
  have hrun := Bool.eq_false_iff.2 hlist
  have hends := Indexer.runEnds (Nat.le_refl (t.largest + 2)) input x
  rw [if_neg hlist]
  generalize Indexer.run t input x = ran at hends ⊢
  obtain ⟨e | summary, y⟩ := ran
  · exact .stopped hrun hends
  dsimp only
  by_cases hsymbols : o.listsSymbols = true
  · rw [if_pos hsymbols]
    rcases hwrite : y.writeSymbols default with ⟨_ | _, z⟩
    all_goals exact .symbols hrun hsymbols hends hwrite
  · rw [if_neg hsymbols]
    exact .run hrun (Bool.eq_false_iff.2 hsymbols) hends

theorem told (t : FileTree) (o : Options) (s : Settings) (w : SearchPath) (console : Console)
    (p : Progress) (input : String) :
    Told console p input (process t o input (.new s.scan w .empty))
      (processInput t o s w console p input) := by
  unfold processInput
  rcases process t o input (.new s.scan w .empty) with ⟨e | summary, x⟩
  · exact .error
  · exact .counts

/-- **Every input is processed from a new index with the same directories.** -/
theorem processes_foldl (t : FileTree) (o : Options) (s : Settings) (w : SearchPath)
    (console : Console) (inputs : List String) (p : Progress) :
    Processes t o (.new s.scan w .empty) console p inputs
      (inputs.foldl (processInput t o s w console) p) := by
  induction inputs generalizing p with
  | nil => exact .nil p
  | cons input inputs ih =>
    exact .cons (processed t o input _) (told t o s w console p input) (ih _)

/-- **Directories are searched in the order in which the user gives them.** Whatever stands among
the arguments, if the options are in order every input is processed from an index that follows its
imports in these directories, each import to the first of them that has its file: the values of the
options for one, from left to right, then those of the settings, then, if they are wanted, the parts
of the include list between colons, without the blanks around them and without empty parts. -/
theorem directories_in_order {args : List String} {o : Options}
    (h : (Options.parse {} args).2 = .ok o) (env : Environment) (s : Settings) :
    let w := Settings.searchPathOf env (o.apply s).imports
    let included := (env.lookup "G_INCLUDE").getD ""
    w.directories = Options.namedDirectories args ++ s.imports.searchPath
        ++ (if s.imports.useIncluded then
          ((included.toList.splitOn ':').map fun part =>
            String.ofList ((part.dropWhile Text.isBlank).rdropWhile Text.isBlank)).filter (· ≠ "")
        else []) ∧
      ∀ (t : FileTree) (program time : String), o.help = false → o.inputs ≠ [] →
        loaded env t o = .ok s →
        let x := Indexer.new (o.apply s).scan w .empty
        (∀ input ∈ o.inputs, x.SearchesIn w.directories t input) ∧
          ∃ console streams p, Processes t o x console ⟨streams, .empty, false⟩ o.inputs p ∧
            run program args env t time
              = ⟨if p.failed then 1 else 0, conclude o (o.apply s) p⟩ := by
  intro w included
  refine ⟨?_, fun t program time hhelp hinputs hloaded => ⟨fun input _ => ?_, ?_⟩⟩
  · have hnamed : o.includeDirs = Options.namedDirectories args := Options.includeDirs_of_parse h
    have hincluded : ((env.lookup "G_INCLUDE").map SearchPath.split).getD []
        = SearchPath.split included := by
      cases hlookup : env.lookup "G_INCLUDE" with
      | none => simp only [included, hlookup]; rfl
      | some text => simp only [included, hlookup]; rfl
    rw [← hnamed, SearchPath.directories]
    simp only [w, Options.imports_apply, Settings.searchPathOf, hincluded, SearchPath.split,
      Text.splitAt_eq_splitOn, Text.trim, String.toList_ofList, List.rdropWhile]
  · exact Indexer.searchesIn _ w .empty t input
  · obtain ⟨streams, hrun⟩ := run_of_loaded h hhelp hinputs hloaded program time
    exact ⟨_, _, _, processes_foldl t o (o.apply s) w _ o.inputs _, hrun⟩

/-- The value of an option is a directory even if it looks like an option, and the first import of
the input is found there. -/
theorem directories_of_optionlike_value :
    let args := ["-i", "-v", "main.g", "--include", "lib"]
    let env : Environment := [("G_INCLUDE", "x: :y")]
    let t : FileTree := ⟨[["-v"], ["lib"]], [(["a.g", "lib"], Text.utf8 "class A;\n"),
      (["a.g", "-v"], Text.utf8 "class B;\n"), (["main.g"], Text.utf8 "import \"a\"\n")]⟩
    let s := Settings.ofEnvironment env
    ∃ o, (Options.parse {} args).2 = .ok o ∧ o.help = false ∧ o.inputs = ["main.g"] ∧
      loaded env t o = .ok s ∧
      let w := Settings.searchPathOf env (o.apply s).imports
      let x := Indexer.new (o.apply s).scan w .empty
      w.directories = ["-v", "lib", ".", "include", "x", "y"] ∧
      (∃ start y z,
        (x.add (.note (Indexer.startNote "main.g"))).openFile t "main.g" = (.ok (), start) ∧
        Visits (Indexer.driveRound t) (.betweenDefinitions, start) (.behindImport, y) ∧
        Indexer.driveRound t (.behindImport, y) = .inl (.betweenDefinitions, z) ∧
        z.sources.map (·.name) = ["-v/a.g", "main.g"]) ∧
      ∃ console streams p, Processes t o x console ⟨streams, .empty, false⟩ o.inputs p ∧
        run "g" args env t "" = ⟨if p.failed then 1 else 0, conclude o (o.apply s) p⟩ := by
  intro args env t s
  let o : Options := { inputs := ["main.g"], includeDirs := ["-v", "lib"] }
  have hparse : (Options.parse {} args).2 = .ok o := rfl
  have hloaded : loaded env t o = .ok s := rfl
  obtain ⟨hdirectories, hinputs⟩ := directories_in_order hparse env s
  obtain ⟨hsearches, hprocesses⟩ := hinputs t "g" "" rfl (by decide) hloaded
  have hdirs := hdirectories.trans (show _ = ["-v", "lib", ".", "include", "x", "y"] by decide)
  refine ⟨o, hparse, rfl, rfl, hloaded, hdirs, ?_, hprocesses⟩
  let x := Indexer.new (o.apply s).scan (Settings.searchPathOf env (o.apply s).imports) .empty
  let start := ((x.add (.note (Indexer.startNote "main.g"))).openFile t "main.g").2
  have hround : (Indexer.driveRound t (.betweenDefinitions, start)).getLeft?.map (fun q =>
      (q.1, q.2.nextToken.1, q.2.nextToken.2.scanner.lexemeText,
        q.2.nextToken.2.sources.map (·.name)))
      = some (.behindImport, .quoted, "a", ["main.g"]) := by decide +kernel
  obtain ⟨⟨place, y⟩, hgo, hy⟩ := Option.map_eq_some_iff.1 hround
  simp only [Prod.mk.injEq] at hy
  obtain ⟨rfl, hquoted, hname, hsources⟩ := hy
  have hvisits : Visits (Indexer.driveRound t) (.betweenDefinitions, start) (.behindImport, y) :=
    .next .start (Sum.getLeft?_eq_some_iff.1 hgo)
  obtain ⟨r, hfollows, hnext⟩ :=
    (hsearches "main.g" (List.mem_singleton_self _)).run rfl hvisits hquoted
  rw [hdirs, hname] at hfollows
  cases hfollows with
  | @opened path bytes z hin _ _ hleft =>
    refine ⟨start, y, z, rfl, hvisits, hnext, ?_⟩
    obtain ⟨before, dir, after, hsplit, hbefore, -, rfl⟩ := hin
    cases before with
    | nil =>
      obtain rfl := (List.cons.inj hsplit).1
      rw [hleft, List.map_cons, hsources]
      rfl
    | cons d before =>
      obtain rfl := (List.cons.inj hsplit).1
      exact absurd (hbefore "-v" List.mem_cons_self) (by decide)
  | tooDeep _ hfull =>
    rw [← List.length_map, hsources] at hfull
    exact absurd hfull (by decide)
  | missing hnone => exact absurd (hnone "-v" List.mem_cons_self) (by decide)
  | malformed hbad => exact absurd hbad (by decide)

end CommandLine
end ClassIndex
