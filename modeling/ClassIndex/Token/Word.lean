/-
# Reserved words

The reserved words stand in strictly increasing byte order, so that a word is found, or found to
be free, by halving.
-/

import ClassIndex.Text.Utf8
import ClassIndex.Token.Kind

namespace ClassIndex
namespace Token

/-- The order of byte strings: the first difference decides, else the shorter comes first. -/
def compareBytes : List UInt8 → List UInt8 → Ordering
  | [], [] => .eq
  | [], _ :: _ => .lt
  | _ :: _, [] => .gt
  | a :: s, b :: t => if a < b then .lt else if b < a then .gt else compareBytes s t

/-- The reserved words with their kinds. Some name the kind of a sign. -/
def reserved : Array (String × Kind) := #[
  ("and", .conjunction), ("as", .asWord), ("bool", .boolWord), ("break", .breakWord),
  ("case", .caseWord), ("class", .classWord), ("constructor", .constructorWord),
  ("continue", .continueWord), ("create", .createWord), ("default", .defaultWord),
  ("destroy", .destroyWord), ("destructor", .destructorWord), ("dict", .dictWord),
  ("do", .doWord), ("else", .elseWord), ("entry", .entryWord), ("equ", .equal),
  ("except", .exceptWord), ("false", .falseWord), ("float", .floatWord), ("for", .forWord),
  ("gt", .greater), ("gte", .greaterEqual), ("if", .ifWord), ("import", .importWord),
  ("inline", .inlineWord), ("int", .intWord), ("list", .listWord), ("lt", .less),
  ("lte", .lessEqual), ("map", .mapWord), ("namespace", .namespaceWord), ("neq", .notEqual),
  ("not", .negate), ("or", .disjunction), ("private", .privateWord),
  ("protected", .protectedWord), ("public", .publicWord), ("raise", .raiseWord),
  ("return", .returnWord), ("string", .stringWord), ("super", .superWord),
  ("switch", .switchWord), ("true", .trueWord), ("try", .tryWord), ("uint", .uintWord),
  ("void", .voidWord), ("while", .whileWord)]

/-- The kind of a reserved word among those at the places from `lo` to before `hi`. -/
def searchWord (word : List UInt8) (lo hi : Nat) : Option Kind :=
  if lo < hi then
    match reserved[(lo + hi) / 2]? with
    | some (w, k) =>
      match compareBytes (Text.utf8 w) word with
      | .eq => some k
      | .lt => searchWord word ((lo + hi) / 2 + 1) hi
      | .gt => searchWord word lo ((lo + hi) / 2)
    | none => none
  else none
termination_by hi - lo

/-- The kind of a word: that of the reserved word it is, else a name. -/
def wordKind (word : List UInt8) : Kind := (searchWord word 0 reserved.size).getD .identifier

end Token
end ClassIndex
