/-
# Settings

What the user prefers comes from a settings file or from the environment. A section that the file
lacks comes from the environment; a section that it has must set everything in it.

| variable | sets | otherwise |
| --- | --- | --- |
| `G_SCANNER_WARN_UNRECOGNIZED` | warnings of unknown bytes | yes |
| `G_SCANNER_LOG_SOURCES` | notes when sources open and end | no |
| `G_IMPORT_PATH` | directories searched for imports | `.:include` |
| `G_IMPORT_USE_INCLUDE` | whether `G_INCLUDE` is searched after them | yes |
| `G_LOGGING_USE_STRUCTURED` | diagnostics and notes as JSON | no |
| `G_LOGGING_MIN_LEVEL` | the least important level shown | warnings |
| `G_LOGGING_CARGO_STYLE` | a report by file at the end | no |
| `G_VERBOSE` | verbosity, at most 50 | 0 |
| `G_CONFIG_FILE` | the settings file | none |
-/

import ClassIndex.Scanner.Basic
import ClassIndex.SearchPath
import ClassIndex.Toml.Reader

namespace ClassIndex

/-- The variables of the environment with their values. -/
abbrev Environment := List (String × String)

/-- Where imports are searched. -/
structure ImportPreferences where
  searchPath : List String
  useIncluded : Bool
deriving DecidableEq, Repr

/-- What is shown of a run. -/
structure LogPreferences where
  structured : Bool
  least : Diagnostic.Level
  reportByFile : Bool
  verbosity : Nat
deriving DecidableEq, Repr

/-- All that the user prefers. -/
structure Settings where
  scan : ScanPreferences
  imports : ImportPreferences
  log : LogPreferences
deriving DecidableEq, Repr

/-- Why there are no settings. -/
inductive SettingsError where
  | unreadable (path message : String)
  | invalid (path : String)
deriving DecidableEq, Repr

/-- The wording of a failure. -/
def SettingsError.message : SettingsError → String
  | .unreadable path message => "Cannot read configuration file " ++ path ++ ": " ++ message
  | .invalid path => "Invalid configuration file " ++ path

namespace Settings

open Diagnostic (Level)

/-- The verbosity is at most this. -/
def maxVerbosity : Nat := 50

/-- A truth value in a variable. -/
def truth? (s : String) : Option Bool :=
  if s = "true" then some true else if s = "false" then some false else none

/-- A number of eight bits in a variable: digits, perhaps after a plus. -/
def byte? (s : String) : Option Nat :=
  let digits := match s.toList with
    | '+' :: rest => rest
    | cs => cs
  if digits.isEmpty || digits.any (! Text.isDigit ·) then none
  else
    let n := Text.ofDecimal digits
    if n < 256 then some n else none

/-- An upper-case letter of ASCII as its lower case. -/
def lowerAscii (c : Char) : Char :=
  if 'A' ≤ c && c ≤ 'Z' then Char.ofNat (c.toNat + 32) else c

/-- A level in a variable: a word in any case, or its number. -/
def level? (s : String) : Option Level :=
  let word := String.ofList (s.toList.map lowerAscii)
  if word = "error" || word = "0" then some .error
  else if word = "warning" || word = "warn" || word = "1" then some .warning
  else if word = "info" || word = "2" then some .info
  else if word = "debug" || word = "3" then some .trace
  else none

/-- The value of a variable, read in some way; where that fails, another value. -/
def setting {α : Type} (env : Environment) (name : String) (read : String → Option α)
    (otherwise : α) : α :=
  ((env.lookup name).bind read).getD otherwise

/-- What the environment says of scanning. -/
def scanOf (env : Environment) : ScanPreferences where
  warnUnrecognized := setting env "G_SCANNER_WARN_UNRECOGNIZED" truth? true
  noteSources := setting env "G_SCANNER_LOG_SOURCES" truth? false

/-- The directories searched where nothing else is said. -/
def defaultPath : String := ".:include"

/-- What the environment says of imports. -/
def importsOf (env : Environment) : ImportPreferences where
  searchPath := SearchPath.split ((env.lookup "G_IMPORT_PATH").getD defaultPath)
  useIncluded := setting env "G_IMPORT_USE_INCLUDE" truth? true

/-- What the environment says of notes and diagnostics. -/
def logOf (env : Environment) : LogPreferences where
  structured := setting env "G_LOGGING_USE_STRUCTURED" truth? false
  least := setting env "G_LOGGING_MIN_LEVEL" level? .warning
  reportByFile := setting env "G_LOGGING_CARGO_STYLE" truth? false
  verbosity := setting env "G_VERBOSE" (fun s => (byte? s).map (min · maxVerbosity)) 0

/-- What the environment says without a settings file. -/
def ofEnvironment (env : Environment) : Settings := ⟨scanOf env, importsOf env, logOf env⟩

/-- The values of a section's keys, in the order of the names; a section may be a row of values
in that order. -/
def sectionFields? (names : List String) : Toml → Option (List Toml)
  | .table _ entries => names.mapM fun name => entries.lookup name
  | .array items => if items.length < names.length then none else some (items.take names.length)
  | _ => none

/-- A truth value of a settings file. -/
def boolean? : Toml → Option Bool
  | .boolean b => some b
  | _ => none

/-- A number of eight bits of a settings file. -/
def small? : Toml → Option Nat
  | .integer n => if 0 ≤ n && n < 256 then some n.toNat else none
  | _ => none

/-- A row of texts of a settings file. -/
def texts? : Toml → Option (List String)
  | .array items => items.mapM fun
    | .string s => some s
    | _ => none
  | _ => none

/-- The tag of a level in settings. -/
def levelTag : Level → String
  | .error => "Error"
  | .warning => "Warning"
  | .info => "Info"
  | .trace => "Debug"

/-- The level that a tag names. -/
def levelOfTag? (s : String) : Option Level :=
  [Level.error, .warning, .info, .trace].find? (levelTag · == s)

/-- Holds nothing. -/
def isHollow : Toml → Bool
  | .table _ [] => true
  | .array [] => true
  | _ => false

/-- A level of a settings file: its tag, or a table whose only key is the tag and holds nothing. -/
def settingLevel? : Toml → Option Level
  | .string s => levelOfTag? s
  | .table _ [(tag, v)] => if isHollow v then levelOfTag? tag else none
  | _ => none

/-- The section on scanning. -/
def scanSection? (v : Toml) : Option ScanPreferences := do
  match ← sectionFields? ["warn_unrecognized_characters", "log_source_transitions"] v with
  | [warn, note] => return ⟨← boolean? warn, ← boolean? note⟩
  | _ => none

/-- The section on imports. -/
def importsSection? (v : Toml) : Option ImportPreferences := do
  match ← sectionFields? ["search_path", "use_include_env"] v with
  | [path, included] => return ⟨← texts? path, ← boolean? included⟩
  | _ => none

/-- The section on notes and diagnostics. -/
def logSection? (v : Toml) : Option LogPreferences := do
  match ← sectionFields?
      ["use_structured_logging", "min_log_level", "enable_cargo_style_output", "verbosity"] v with
  | [structured, least, byFile, verbosity] =>
    return ⟨← boolean? structured, ← settingLevel? least, ← boolean? byFile, ← small? verbosity⟩
  | _ => none

/-- A section of a settings file; where there is none, another value. -/
def section? {α : Type} (es : Toml.Entries) (name : String) (read : Toml → Option α)
    (otherwise : α) : Option α :=
  match es.lookup name with
  | some v => read v
  | none => some otherwise

/-- The settings in the text of a settings file. -/
def ofText? (env : Environment) (text : String) : Option Settings := do
  let es ← Toml.parse? text
  let scan ← section? es "scanner" scanSection? (scanOf env)
  let imports ← section? es "imports" importsSection? (importsOf env)
  let log ← section? es "logging" logSection? (logOf env)
  return ⟨scan, imports, log⟩

/-- The failure of a file that is no text. -/
def notText : String := "stream did not contain valid UTF-8"

/-- The text of a file. -/
def readText (t : FileTree) (path : String) : Except String String :=
  match t.read path with
  | .error e => .error e.message
  | .ok (_, some failure) => .error failure
  | .ok (bytes, none) =>
    match Text.strict? bytes with
    | some text => .ok text
    | none => .error notText

/-- The settings in a file. -/
def ofFile (env : Environment) (t : FileTree) (path : String) : Except SettingsError Settings :=
  match readText t path with
  | .error message => .error (.unreadable path message)
  | .ok text =>
    match ofText? env text with
    | some s => .ok s
    | none => .error (.invalid path)

/-- The settings in the file that the environment names, or those of the environment. -/
def load (env : Environment) (t : FileTree) : Except SettingsError Settings :=
  match env.lookup "G_CONFIG_FILE" with
  | some path => ofFile env t path
  | none => .ok (ofEnvironment env)

/-- The settings with a directory searched before all others. -/
def addDirectory (s : Settings) (dir : String) : Settings :=
  { s with imports := { s.imports with searchPath := dir :: s.imports.searchPath } }

/-- The level that a verbosity asks for. -/
def verbosityLevel (verbosity : Nat) : Level :=
  if verbosity = 0 then .error else if verbosity ≤ 9 then .info else .trace

/-- The least important level shown: verbosity can only add to it. -/
def effectiveLevel (p : LogPreferences) : Level :=
  let asked := verbosityLevel p.verbosity
  if p.least.rank ≤ asked.rank then asked else p.least

/-- The directories searched for imports. -/
def searchPathOf (env : Environment) (p : ImportPreferences) : SearchPath where
  search := p.searchPath
  included :=
    if p.useIncluded then ((env.lookup "G_INCLUDE").map SearchPath.split).getD [] else []

/-- The settings as data. -/
def json (s : Settings) : Json :=
  .obj [("scanner", .obj
      [("warn_unrecognized_characters", .bool s.scan.warnUnrecognized),
       ("log_source_transitions", .bool s.scan.noteSources)]),
    ("imports", .obj
      [("search_path", .arr (s.imports.searchPath.map .str)),
       ("use_include_env", .bool s.imports.useIncluded)]),
    ("logging", .obj
      [("use_structured_logging", .bool s.log.structured),
       ("min_log_level", .str (levelTag s.log.least)),
       ("enable_cargo_style_output", .bool s.log.reportByFile),
       ("verbosity", .nat s.log.verbosity)])]

end Settings
end ClassIndex
