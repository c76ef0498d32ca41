/-
# Options of the command line

Options and inputs stand in any order; an option's value is the argument behind it, whatever it
looks like. An unknown option is warned of and otherwise passed over.
-/

import ClassIndex.Settings

namespace ClassIndex

/-- What the command line asks for. -/
structure Options where
  inputs : List String := []
  includeDirs : List String := []
  verbosity? : Option Nat := none
  settingsFile? : Option String := none
  listsTokens : Bool := false
  listsSymbols : Bool := false
  help : Bool := false
deriving DecidableEq, Inhabited, Repr

/-- An option without a proper value. -/
inductive OptionError where
  | needsDirectory (option : String)
  | needsNumber (option : String)
  | badVerbosity (value : String)
  | needsFile
deriving DecidableEq, Repr

/-- The wording of a refusal. -/
def OptionError.message : OptionError → String
  | .needsDirectory option => option ++ " requires a directory"
  | .needsNumber option => option ++ " requires a number"
  | .badVerbosity value => "invalid verbosity '" ++ value ++ "'"
  | .needsFile => "--config requires a file"

namespace Options

/-- What one argument means. -/
inductive Meaning where
  | help
  | includeDir
  | verbosity
  | settingsFile
  | listTokens
  | listSymbols
  | unknown
  | input
deriving DecidableEq, Repr

/-- The meaning of an argument that is no option's value. -/
def meaning (arg : String) : Meaning :=
  if arg = "--help" || arg = "-h" then .help
  else if arg = "-i" || arg = "--include" then .includeDir
  else if arg = "-v" || arg = "--verbose" then .verbosity
  else if arg = "--config" then .settingsFile
  else if arg = "--tokens" then .listTokens
  else if arg = "--symbols" then .listSymbols
  else if arg.toList.head? = some '-' then .unknown
  else .input

/-- The unknown options met, and the options or the refusal. -/
abbrev Parsed := List String × Except OptionError Options

/-- Reads the arguments from left to right into options. -/
def parse (o : Options) : List String → Parsed
  | [] => ([], .ok o)
  | arg :: rest =>
    match meaning arg with
    | .help => parse { o with help := true } rest
    | .includeDir =>
      match rest with
      | dir :: rest => parse { o with includeDirs := o.includeDirs ++ [dir] } rest
      | [] => ([], .error (.needsDirectory arg))
    | .verbosity =>
      match rest with
      | raw :: rest =>
        match Settings.byte? raw with
        | some n => parse { o with verbosity? := some (min n Settings.maxVerbosity) } rest
        | none => ([], .error (.badVerbosity raw))
      | [] => ([], .error (.needsNumber arg))
    | .settingsFile =>
      match rest with
      | path :: rest => parse { o with settingsFile? := some path } rest
      | [] => ([], .error .needsFile)
    | .listTokens => parse { o with listsTokens := true } rest
    | .listSymbols => parse { o with listsSymbols := true } rest
    | .unknown => let (unknown, result) := parse o rest; (arg :: unknown, result)
    | .input => parse { o with inputs := o.inputs ++ [arg] } rest

/-- The settings with what the command line says; its directories are searched first, in their
order. -/
def apply (o : Options) (s : Settings) : Settings :=
  let s := o.includeDirs.foldr (fun dir s => s.addDirectory dir) s
  { s with log := { s.log with verbosity := o.verbosity?.getD s.log.verbosity } }

end Options
end ClassIndex
