/-
# Token kinds

Every token has one of 75 kinds, in the order below. A kind has a name for messages, a tag for
data, and a class:

| class | kinds |
| --- | --- |
| control | no token, a malformed token, the end of the input |
| literal | the four forms of numbers, quoted strings |
| identifier | names |
| operator, punctuation | signs |
| keyword | reserved words that no sign stands for |
-/

namespace ClassIndex
namespace Token

/-- What the scanner tells apart. -/
inductive Kind where
  | nothing
  | error
  | endOfInput
  | identifier
  | hexNumber
  | wholeNumber
  | floatNumber
  | octalNumber
  | quoted
  | slash
  | star
  | percent
  | comma
  | semicolon
  | colon
  | openSquare
  | closeSquare
  | openCurly
  | closeCurly
  | openParen
  | closeParen
  | dot
  | assign
  | less
  | greater
  | minus
  | plus
  | negate
  | equal
  | lessEqual
  | greaterEqual
  | decrement
  | increment
  | notEqual
  | conjunction
  | disjunction
  | asWord
  | boolWord
  | breakWord
  | caseWord
  | classWord
  | constructorWord
  | continueWord
  | createWord
  | defaultWord
  | destroyWord
  | destructorWord
  | dictWord
  | doWord
  | elseWord
  | entryWord
  | exceptWord
  | falseWord
  | floatWord
  | forWord
  | ifWord
  | importWord
  | inlineWord
  | intWord
  | listWord
  | mapWord
  | namespaceWord
  | privateWord
  | protectedWord
  | publicWord
  | raiseWord
  | returnWord
  | stringWord
  | superWord
  | switchWord
  | trueWord
  | tryWord
  | uintWord
  | voidWord
  | whileWord
deriving DecidableEq, Inhabited, Repr

/-- The coarse groups of kinds. -/
inductive Group where
  | control
  | literal
  | identifier
  | operator
  | punctuation
  | keyword
deriving DecidableEq, Repr

namespace Kind

/-- The name of a kind in messages. -/
def name : Kind → String
  | .nothing => "NONE"
  | .error => "ERROR"
  | .endOfInput => "END OF INPUT"
  | .identifier => "symbol"
  | .hexNumber => "unsigned number"
  | .wholeNumber => "signed number"
  | .floatNumber => "float number"
  | .octalNumber => "octal number"
  | .quoted => "quoted string"
  | .slash => "'/'"
  | .star => "'*'"
  | .percent => "'%'"
  | .comma => "','"
  | .semicolon => "';'"
  | .colon => "':'"
  | .openSquare => "'['"
  | .closeSquare => "']'"
  | .openCurly => "'\x7b'"
  | .closeCurly => "'\x7d'"
  | .openParen => "'('"
  | .closeParen => "')'"
  | .dot => "'.'"
  | .assign => "'='"
  | .less => "'<' or 'lt'"
  | .greater => "'>' or 'gt'"
  | .minus => "'-'"
  | .plus => "'+'"
  | .negate => "'!' or 'not'"
  | .equal => "'==' or 'equ'"
  | .lessEqual => "'<=' or 'lte'"
  | .greaterEqual => "'>=' or 'gte'"
  | .decrement => "'decrement'"
  | .increment => "'increment'"
  | .notEqual => "'!=' or 'neq'"
  | .conjunction => "'&' or 'and'"
  | .disjunction => "'|' or 'or'"
  | .asWord => "'as'"
  | .boolWord => "'bool'"
  | .breakWord => "'break'"
  | .caseWord => "'case'"
  | .classWord => "'class'"
  | .constructorWord => "'constructor'"
  | .continueWord => "'continue'"
  | .createWord => "'create'"
  | .defaultWord => "'default'"
  | .destroyWord => "'destroy'"
  | .destructorWord => "'destructor'"
  | .dictWord => "'dict'"
  | .doWord => "'do'"
  | .elseWord => "'else'"
  | .entryWord => "'entry'"
  | .exceptWord => "'except'"
  | .falseWord => "'false'"
  | .floatWord => "'float'"
  | .forWord => "'for'"
  | .ifWord => "'if'"
  | .importWord => "'import'"
  | .inlineWord => "'inline'"
  | .intWord => "'int'"
  | .listWord => "'list'"
  | .mapWord => "'map'"
  | .namespaceWord => "'namespace'"
  | .privateWord => "'private'"
  | .protectedWord => "'protected'"
  | .publicWord => "'public'"
  | .raiseWord => "'raise'"
  | .returnWord => "'return'"
  | .stringWord => "'string'"
  | .superWord => "'super'"
  | .switchWord => "'switch'"
  | .trueWord => "'true'"
  | .tryWord => "'try'"
  | .uintWord => "'uint'"
  | .voidWord => "'void'"
  | .whileWord => "'while'"

/-- The tag of a kind in data. -/
def tag : Kind → String
  | .nothing => "None"
  | .error => "Error"
  | .endOfInput => "EndOfInput"
  | .identifier => "Symbol"
  | .hexNumber => "UNum"
  | .wholeNumber => "INum"
  | .floatNumber => "FNum"
  | .octalNumber => "ONum"
  | .quoted => "QStrg"
  | .slash => "Slash"
  | .star => "Mul"
  | .percent => "Mod"
  | .comma => "Comma"
  | .semicolon => "Semicolon"
  | .colon => "Colon"
  | .openSquare => "OpenSquare"
  | .closeSquare => "CloseSquare"
  | .openCurly => "OpenCurly"
  | .closeCurly => "CloseCurly"
  | .openParen => "OpenParen"
  | .closeParen => "CloseParen"
  | .dot => "Dot"
  | .assign => "Assign"
  | .less => "Lt"
  | .greater => "Gt"
  | .minus => "Sub"
  | .plus => "Add"
  | .negate => "Not"
  | .equal => "Equality"
  | .lessEqual => "Lte"
  | .greaterEqual => "Gte"
  | .decrement => "Dec"
  | .increment => "Inc"
  | .notEqual => "Neq"
  | .conjunction => "And"
  | .disjunction => "Or"
  | .asWord => "As"
  | .boolWord => "Bool"
  | .breakWord => "Break"
  | .caseWord => "Case"
  | .classWord => "Class"
  | .constructorWord => "Constructor"
  | .continueWord => "Continue"
  | .createWord => "Create"
  | .defaultWord => "Default"
  | .destroyWord => "Destroy"
  | .destructorWord => "Destructor"
  | .dictWord => "Dict"
  | .doWord => "Do"
  | .elseWord => "Else"
  | .entryWord => "Entry"
  | .exceptWord => "Except"
  | .falseWord => "False"
  | .floatWord => "Float"
  | .forWord => "For"
  | .ifWord => "If"
  | .importWord => "Import"
  | .inlineWord => "Inline"
  | .intWord => "Int"
  | .listWord => "List"
  | .mapWord => "Map"
  | .namespaceWord => "Namespace"
  | .privateWord => "Private"
  | .protectedWord => "Protected"
  | .publicWord => "Public"
  | .raiseWord => "Raise"
  | .returnWord => "Return"
  | .stringWord => "String"
  | .superWord => "Super"
  | .switchWord => "Switch"
  | .trueWord => "True"
  | .tryWord => "Try"
  | .uintWord => "UInt"
  | .voidWord => "Void"
  | .whileWord => "While"

/-- Every kind, in order. -/
def all : List Kind :=
  [.nothing, .error, .endOfInput, .identifier, .hexNumber, .wholeNumber, .floatNumber, .octalNumber,
    .quoted, .slash, .star, .percent, .comma, .semicolon, .colon, .openSquare, .closeSquare,
    .openCurly, .closeCurly, .openParen, .closeParen, .dot, .assign, .less, .greater, .minus,
    .plus, .negate, .equal, .lessEqual, .greaterEqual, .decrement, .increment, .notEqual,
    .conjunction, .disjunction, .asWord, .boolWord, .breakWord, .caseWord, .classWord,
    .constructorWord, .continueWord, .createWord, .defaultWord, .destroyWord, .destructorWord,
    .dictWord, .doWord, .elseWord, .entryWord, .exceptWord, .falseWord, .floatWord, .forWord,
    .ifWord, .importWord, .inlineWord, .intWord, .listWord, .mapWord, .namespaceWord,
    .privateWord, .protectedWord, .publicWord, .raiseWord, .returnWord, .stringWord,
    .superWord, .switchWord, .trueWord, .tryWord, .uintWord, .voidWord, .whileWord]

/-- The place of a kind in their order. -/
def rank (k : Kind) : Nat := k.ctorIdx

/-- The kind that a tag names. -/
def ofTag? (s : String) : Option Kind := all.find? (·.tag == s)

/-- The group of a kind. -/
def group : Kind → Group
  | .nothing | .error | .endOfInput => .control
  | .hexNumber | .wholeNumber | .floatNumber | .octalNumber | .quoted => .literal
  | .identifier => .identifier
  | .slash | .star | .percent | .assign | .less | .greater | .minus | .plus | .negate
  | .equal | .lessEqual | .greaterEqual | .decrement | .increment | .notEqual | .conjunction
  | .disjunction => .operator
  | .comma | .semicolon | .colon | .openSquare | .closeSquare | .openCurly | .closeCurly
  | .openParen | .closeParen | .dot => .punctuation
  | _ => .keyword

/-- The text of such a token says more than its kind. -/
def hasText (k : Kind) : Bool := k.group == .literal || k.group == .identifier

/-- Says who may see a member. -/
def isVisibility (k : Kind) : Bool := k == .publicWord || k == .privateWord || k == .protectedWord

/-- Names a type that needs no definition. -/
def isTypeName (k : Kind) : Bool :=
  [.intWord, .uintWord, .floatWord, .boolWord, .stringWord, .dictWord, .mapWord, .listWord,
    .voidWord].contains k

end Kind

/-- The name of a group in data. -/
def Group.tag : Group → String
  | .control => "Control"
  | .literal => "Literal"
  | .identifier => "Identifier"
  | .operator => "Operator"
  | .punctuation => "Punctuation"
  | .keyword => "Keyword"

end Token
end ClassIndex
