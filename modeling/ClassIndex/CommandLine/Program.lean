/-
# The program

The program indexes every input on its own, with the same settings, and shows what each run says
followed by its counts. It ends with status 1 if an option is wrong, no input is given, the
settings cannot be loaded, or a run finds an error or stops early.
-/

import ClassIndex.CommandLine.Console
import ClassIndex.CommandLine.Options
import ClassIndex.Indexer.Description
import ClassIndex.Indexer.Listing
import ClassIndex.Indexer.Run

namespace ClassIndex
namespace CommandLine

open Diagnostic (Event FileLog Journal)

/-- What the program has done: its status and what it has written. -/
structure Outcome where
  status : Nat
  streams : Streams
deriving DecidableEq, Repr

/-- The version of the program. -/
def version : String := "0.1.0"

/-- The lines of the help. -/
def helpLines (program : String) : List String := [
  "G front end v" ++ version,
  "Scanner and symbol table for G sources and their imports",
  "",
  "USAGE:",
  "    " ++ program ++ " [options] <input.g>...",
  "",
  "OPTIONS:",
  "    --help              Show this help message",
  "    -i, --include DIR   Search DIR for imports (repeatable, searched in order)",
  "    -v, --verbose N     Verbosity from 0 to " ++ toString Settings.maxVerbosity,
  "    --config FILE       Load preferences from a TOML file",
  "    --tokens            Print every scanned token instead of declaring symbols",
  "    --symbols           Print the symbol table after the run",
  "",
  "ENVIRONMENT:",
  "    G_INCLUDE           Extra import directories, searched after -i",
  "    G_CONFIG_FILE       Preferences file used when --config is absent",
  "",
  "EXAMPLES:",
  "    " ++ program ++ " main.g",
  "    " ++ program ++ " -i lib -i vendor main.g --symbols",
  "    " ++ program ++ " --tokens shapes.g"]

/-- The pointer to the help below a complaint. -/
def helpHint (program : String) : String := "       " ++ program ++ " --help"

/-- How the failure to load settings is shown. -/
def settingsComplaint : SettingsError → String
  | .unreadable path message =>
    "Error: " ++ described "Read"
      [("path", Text.quoted path), ("message", Text.quoted message)]
  | .invalid path =>
    "Error: " ++ described "Parse"
      [("path", Text.quoted path), ("message", Text.quoted "not a TOML document of settings")]

/-- What is said of a run that stopped; all but an output that failed is said already. -/
def failureLines (e : IndexError) : List String :=
  (match e with
    | .output _ => ["Error: " ++ e.message]
    | _ => [])
  ++ ["  code: " ++ e.code]

/-- Indexes one input, or lists its tokens, as the options ask. -/
def process (t : FileTree) (o : Options) (input : String) (x : Indexer) :
    Except IndexError Summary × Indexer :=
  if o.listsTokens then x.dumpTokens t input default
  else match x.run t input with
    | (.error e, x) => (.error e, x)
    | (.ok summary, x) =>
      if o.listsSymbols then
        match x.writeSymbols default with
        | (.error e, x) => (.error e, x)
        | (.ok (), x) => (.ok summary, x)
      else (.ok summary, x)

/-- What the program has come to after some inputs. -/
structure Progress where
  streams : Streams
  files : FileLog
  failed : Bool

/-- Processes one more input. -/
def processInput (t : FileTree) (o : Options) (s : Settings) (searchPath : SearchPath)
    (console : Console) (p : Progress) (input : String) : Progress :=
  let (result, x) := process t o input (.new s.scan searchPath .empty)
  let streams := console.showAll p.streams x.journal
  let files := Console.fileLog p.files x.journal
  match result with
  | .ok summary =>
    ⟨streams.say (input ++ ": " ++ summary.text), files, p.failed || !summary.isClean⟩
  | .error e => ⟨(failureLines e).foldl Streams.complain streams, files, true⟩

/-- The note that the program is ready. -/
def readyNote : Event := .success "I001" "Global logging system initialized"

/-- What is said at the end: totals, if there are several inputs with something to count, and the
report by file, if it is wanted. -/
def conclude (o : Options) (s : Settings) (p : Progress) : Streams :=
  let totals := p.files.totals
  let streams :=
    if 1 < o.inputs.length && (0 < totals.errors || 0 < totals.warnings) then
      p.streams.say ("total: " ++ Journal.countsText totals.errors totals.warnings ++ " in "
        ++ toString totals.files ++ " source(s)")
    else p.streams
  if s.log.reportByFile then streams.say p.files.report else streams

/-- Processes all inputs under given settings. -/
def processAll (env : Environment) (t : FileTree) (time : String) (o : Options) (s : Settings)
    (streams : Streams) : Outcome :=
  let console := Console.ofPreferences s.log time
  let streams := console.showEntry streams (.note readyNote)
  let searchPath := Settings.searchPathOf env s.imports
  let p := o.inputs.foldl (processInput t o s searchPath console) ⟨streams, .empty, false⟩
  ⟨if p.failed then 1 else 0, conclude o s p⟩

/-- Runs the program with its name, its arguments, the environment, the files it can see and the
time it is run at. -/
def run (program : String) (args : List String) (env : Environment) (t : FileTree)
    (time : String) : Outcome :=
  let (unknown, parsed) := Options.parse {} args
  let streams : Streams :=
    unknown.foldl (fun s option => s.complain ("Warning: Unknown option '" ++ option ++ "'")) {}
  match parsed with
  | .error e => ⟨1, (streams.complain ("Error: " ++ e.message)).complain (helpHint program)⟩
  | .ok o =>
    if o.help then ⟨0, (helpLines program).foldl Streams.say streams⟩
    else if o.inputs.isEmpty then
      ⟨1, (streams.complain ("Usage: " ++ program ++ " [options] <input.g>...")).complain
        (helpHint program)⟩
    else
      let loaded := match o.settingsFile? with
        | some path => Settings.ofFile env t path
        | none => Settings.load env t
      match loaded with
      | .error e => ⟨1, streams.complain (settingsComplaint e)⟩
      | .ok s => processAll env t time o (o.apply s) streams

end CommandLine
end ClassIndex
