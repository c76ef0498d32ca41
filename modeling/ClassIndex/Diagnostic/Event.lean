/-
# Events

An event is a message with a level and a code, perhaps the stretch of source it is about, and
named facts kept in the order of their names.

| event | its line |
| --- | --- |
| error whose code requires a halt | `FATAL ERROR: message` |
| error or warning with a file and a stretch | `Syntax Error: file: line: column: message`, `Warning: …` |
| any other error or warning | `Syntax Error: message`, `Warning: message` |
| information, trace | `[INFO] code - message`, `[DEBUG] code - message` |
-/

import ClassIndex.Diagnostic.Code
import ClassIndex.Position

namespace ClassIndex
namespace Diagnostic

/-- The importance of an event, the most important first. -/
inductive Level where
  | error
  | warning
  | info
  | trace
deriving DecidableEq, Repr

namespace Level

/-- The name of a level in a line. -/
def text : Level → String
  | .error => "ERROR"
  | .warning => "WARN"
  | .info => "INFO"
  | .trace => "DEBUG"

/-- The place of a level, zero for errors. -/
def rank (l : Level) : Nat := l.ctorIdx

/-- A level that is at least as important as another. -/
def within (l least : Level) : Bool := l.rank ≤ least.rank

end Level

/-- A message with what is known about it. -/
structure Event where
  level : Level
  code : String
  message : String
  span : Option Span := none
  context : List (String × String) := []
deriving DecidableEq, Repr

/-- Sets a fact among facts that are kept in the order of their names. -/
def setFact (facts : List (String × String)) (name value : String) : List (String × String) :=
  match facts with
  | [] => [(name, value)]
  | (n, v) :: rest =>
    if n = name then (name, value) :: rest
    else if name < n then (name, value) :: (n, v) :: rest
    else (n, v) :: setFact rest name value

namespace Event

/-- An event without further facts, under the code of its level. -/
def information (message : String) : Event := ⟨.info, "I000", message, none, []⟩

/-- A trace of what the program does. -/
def trace (message : String) : Event := ⟨.trace, "D000", message, none, []⟩

/-- Information about something that succeeded. -/
def success (code message : String) : Event := ⟨.info, code, message, none, []⟩

/-- The event with one more fact. -/
def withFact (e : Event) (name value : String) : Event :=
  { e with context := setFact e.context name value }

/-- The event with several more facts, the later ones winning. -/
def withFacts (e : Event) (facts : List (String × String)) : Event :=
  facts.foldl (fun e (name, value) => e.withFact name value) e

/-- The event with the file and, if the location names a place, the stretch it is about. -/
def located (e : Event) (l : Location) : Event :=
  { e.withFact "file" l.file with span := l.span?.or e.span }

/-- An error. -/
def isError (e : Event) : Bool := e.level == .error

/-- A warning. -/
def isWarning (e : Event) : Bool := e.level == .warning

/-- The code requires a halt. -/
def requiresHalt (e : Event) : Bool := Diagnostic.requiresHalt e.code

/-- An error that stops the run. -/
def isFatal (e : Event) : Bool := e.isError && e.requiresHalt

/-- The file among the facts. -/
def file? (e : Event) : Option String := e.context.lookup "file"

/-- An error's or a warning's line, opening with a given word. -/
def placedLine (e : Event) (opening : String) : String :=
  match e.file?, e.span with
  | some file, some span =>
    opening ++ ": " ++ file ++ ": " ++ toString span.start.line ++ ": " ++
      toString span.start.column ++ ": " ++ e.message
  | _, _ => opening ++ ": " ++ e.message

/-- The line that people read. -/
def line (e : Event) : String :=
  match e.level with
  | .error =>
    if e.requiresHalt then "FATAL ERROR: " ++ e.message else e.placedLine "Syntax Error"
  | .warning => e.placedLine "Warning"
  | _ => "[" ++ e.level.text ++ "] " ++ e.code ++ " - " ++ e.message

/-- The line with what the register says of the code, known descriptions and actions only. -/
def details (e : Event) : String :=
  let description := descriptionOf e.code
  let action := actionOf e.code
  e.line ++ "\n  Code: " ++ e.code ++ "\n  Category: " ++ categoryOf e.code
    ++ "\n  Severity: " ++ (severityOf e.code).text
    ++ (if description = unknownDescription then "" else "\n  Description: " ++ description)
    ++ (if action = unknownAction then "" else "\n  Recommended action: " ++ action)

/-- The event as data with a time, fields in the order of their names. -/
def json (e : Event) (time : String) : Json :=
  .obj <|
    [("category", .str (categoryOf e.code)), ("code", .str e.code)]
    ++ (if e.context.isEmpty then []
        else [("context", .obj (e.context.map fun (k, v) => (k, .str v)))])
    ++ (if e.isError then
          [("error_metadata", .obj
            [("description", .str (descriptionOf e.code)),
             ("recommended_action", .str (actionOf e.code)),
             ("requires_halt", .bool e.requiresHalt)])]
        else [])
    ++ [("level", .str e.level.text), ("message", .str e.message),
        ("severity", .str (severityOf e.code).text)]
    ++ (match e.span with
        | some s => [("span", .obj [("column", .nat s.start.column), ("line", .nat s.start.line)])]
        | none => [])
    ++ [("timestamp", .str time)]

end Event

/-- The events of a row that are at least as important as a level. -/
def kept (least : Level) (events : List Event) : List Event :=
  events.filter (·.level.within least)

end Diagnostic
end ClassIndex
