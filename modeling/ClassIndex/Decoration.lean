/-
# Decorated names

A declaration's place among nested declarations is flattened into one key: each name step is
written after `$`, and each type parameter after `@`, behind the step it belongs to.

| key | read by people as |
| --- | --- |
| `$Shape` | `Shape` |
| `$Shape$area@int@float` | `Shape.area(int,float)` |
| `$Shape$area@int@float$0$total` | `Shape.area(int,float).0.total` |
-/

import ClassIndex.Json

namespace ClassIndex

/-- A name step with its type parameters. -/
structure Segment where
  name : String
  types : List String
deriving DecidableEq, Inhabited, Repr

/-- The steps from the outermost declaration to the innermost. -/
structure Decoration where
  segments : List Segment
deriving DecidableEq, Inhabited, Repr

namespace Decoration

/-- Opens a name step. -/
def nameMarker : Char := '$'

/-- Opens a type parameter. -/
def typeMarker : Char := '@'

/-- A character that opens a component. -/
def isMarker (c : Char) : Bool := c == nameMarker || c == typeMarker

/-- The text up to the first marker, and the components after it, each behind its marker. -/
def cut : List Char → List Char × List (Char × List Char)
  | [] => ([], [])
  | c :: rest =>
    let (text, parts) := cut rest
    if isMarker c then ([], (c, text) :: parts) else (c :: text, parts)

/-- The components of a key. Text before the first marker belongs to none. -/
def components (key : String) : List (Char × String) :=
  (cut key.toList).2.map fun (marker, text) => (marker, String.ofList text)

/-- Adds a type parameter to the last step, to a new step without a name if there is none. -/
def addType (segments : List Segment) (type : String) : List Segment :=
  match segments with
  | [] => [⟨"", [type]⟩]
  | [s] => [⟨s.name, s.types ++ [type]⟩]
  | s :: rest => s :: addType rest type

/-- Adds a component. -/
def addComponent (segments : List Segment) (marker : Char) (text : String) : List Segment :=
  if marker = nameMarker then segments ++ [⟨text, []⟩] else addType segments text

/-- The steps that a key stands for. -/
def parse (key : String) : Decoration :=
  ⟨(components key).foldl (fun segments (marker, text) => addComponent segments marker text) []⟩

/-- The outermost name. -/
def outermost? (d : Decoration) : Option String := d.segments.head?.map (·.name)

/-- The innermost name. -/
def innermost? (d : Decoration) : Option String := d.segments.getLast?.map (·.name)

/-- The number of steps. -/
def depth (d : Decoration) : Nat := d.segments.length

/-- The characters of one step in a key. -/
def segmentKey (s : Segment) : List Char :=
  nameMarker :: (s.name.toList ++ s.types.flatMap fun t => typeMarker :: t.toList)

/-- The key of the steps. -/
def key (d : Decoration) : String := String.ofList (d.segments.flatMap segmentKey)

/-- One step as people read it. -/
def segmentText (s : Segment) : String :=
  if s.types.isEmpty then s.name else s.name ++ "(" ++ String.intercalate "," s.types ++ ")"

/-- The steps as people read them. -/
def text (d : Decoration) : String := String.intercalate "." (d.segments.map segmentText)

/-- The steps as data. -/
def json (d : Decoration) : Json :=
  .obj [("segments", .arr (d.segments.map fun s =>
    .obj [("name", .str s.name), ("types", .arr (s.types.map .str))]))]

/-- The characters of a key as people read them; `open?` says that a list of types is open. -/
def readableChars (open? : Bool) : List Char → List Char
  | [] => if open? then [')'] else []
  | c :: rest =>
    if c = nameMarker then (if open? then [')', '.'] else ['.']) ++ readableChars false rest
    else if c = typeMarker then (if open? then ',' else '(') :: readableChars true rest
    else c :: readableChars open? rest

/-- A key as people read it: the marker at its head is dropped. -/
def readable (key : String) : String :=
  String.ofList <| readableChars false <| match key.toList with
    | c :: rest => if c = nameMarker then rest else c :: rest
    | [] => []

/-- The number of bytes before the second name marker, the first byte counting as one. -/
def classPrefixLength : List UInt8 → Nat
  | [] => 0
  | _ :: rest => 1 + (rest.takeWhile (· != 0x24)).length

/-- The first step of a key that opens with a name, with its marker and without its types. -/
def classPart? (key : String) : Option String :=
  match key.toList with
  | c :: rest =>
    if c = nameMarker then some (String.ofList (c :: rest.takeWhile (! isMarker ·))) else none
  | [] => none

/-- The key from its second name marker on. -/
def namePart? (key : String) : Option String :=
  match key.toList with
  | _ :: rest =>
    match rest.dropWhile (· != nameMarker) with
    | [] => none
    | part => some (String.ofList part)
  | [] => none

/-- The type parameter of a number, counted over the whole key. -/
def typePart? (key : String) (index : Nat) : Option String :=
  (((components key).filter (·.1 == typeMarker))[index]?).map (·.2)

end Decoration
end ClassIndex
