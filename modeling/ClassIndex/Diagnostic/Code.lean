/-
# Diagnostic codes

Every event carries a code. What is known of a code stands in one register; a code outside it is
of medium severity, recoverable and of unknown category.
-/

namespace ClassIndex
namespace Diagnostic

/-- How much a problem matters, the worst first. -/
inductive Severity where
  | critical
  | high
  | medium
  | low
deriving DecidableEq, Repr

namespace Severity

/-- The name of a severity. -/
def text : Severity → String
  | .critical => "Critical"
  | .high => "High"
  | .medium => "Medium"
  | .low => "Low"

/-- The place of a severity, zero for the worst. -/
def rank (s : Severity) : Nat := s.ctorIdx

end Severity

/-- What is known of a code. -/
structure CodeInfo where
  code : String
  category : String
  severity : Severity
  recoverable : Bool
  requiresHalt : Bool
  description : String
  action : String
deriving DecidableEq, Repr

/-- The register of codes. -/
def register : List CodeInfo := [
  ⟨"ERR001", "System", .critical, false, true,
    "Critical internal error",
    "File a bug report with the input that triggered it"⟩,
  ⟨"ERR002", "System", .critical, false, true,
    "Front end initialization failure",
    "Check the configuration and environment variables"⟩,
  ⟨"E005", "Imports", .high, false, false,
    "Imported source not found on the search path",
    "Check the import name, the -i directories and G_INCLUDE"⟩,
  ⟨"E009", "Imports", .high, false, false,
    "Imported source exists but cannot be opened",
    "Check file permissions"⟩,
  ⟨"E011", "Imports", .medium, false, false,
    "I/O error while locating a source",
    "Check the file system"⟩,
  ⟨"E012", "Imports", .medium, true, false,
    "Import name does not form a valid path",
    "Use a plain module name"⟩,
  ⟨"W005", "Imports", .low, true, false,
    "Import name includes the source extension",
    "Drop the extension from the import name"⟩,
  ⟨"E020", "Lexical", .low, true, false,
    "Unrecognized character in source text",
    "Remove the character"⟩,
  ⟨"E021", "Lexical", .medium, true, false,
    "String literal not terminated before end of file",
    "Add the closing quote"⟩,
  ⟨"E022", "Lexical", .medium, true, false,
    "Numeric literal is malformed",
    "Fix the digits, exponent or radix prefix"⟩,
  ⟨"E023", "Lexical", .medium, true, false,
    "String literal contains a raw line break",
    "Split the string into continued segments"⟩,
  ⟨"E024", "Lexical", .medium, true, false,
    "Comma after a string is not followed by another segment",
    "Start another string segment with the same quote"⟩,
  ⟨"E025", "Lexical", .low, true, false,
    "Numeric escape has no digits",
    "Add digits after the escape or remove it"⟩,
  ⟨"E026", "Lexical", .medium, true, false,
    "Block comment not closed before end of file",
    "Close the comment with */"⟩,
  ⟨"E027", "Lexical", .critical, false, true,
    "Too many nested imports",
    "Look for an import cycle"⟩,
  ⟨"E028", "Lexical", .critical, false, true,
    "Source could not be opened for scanning",
    "Check that the file exists and is readable"⟩,
  ⟨"E029", "Lexical", .high, false, false,
    "Read failed while scanning a source",
    "Check the file system"⟩,
  ⟨"E030", "Syntax", .medium, true, false,
    "Token does not match what the grammar expects here",
    "Fix the syntax at the reported position"⟩,
  ⟨"E040", "Symbols", .medium, true, false,
    "Name declared twice in the same scope",
    "Rename or remove one of the declarations"⟩,
  ⟨"E041", "Symbols", .medium, true, false,
    "Name used but never declared",
    "Declare the name or fix the spelling"⟩,
  ⟨"E042", "Symbols", .critical, false, true,
    "Stored symbol could not be encoded or decoded",
    "File a bug report"⟩,
  ⟨"E043", "Symbols", .medium, true, false,
    "Symbol value does not match its assignment type",
    "Assign a value of the declared type"⟩,
  ⟨"E050", "HashTable", .low, true, false,
    "Key already present",
    "Use replace to overwrite an existing entry"⟩,
  ⟨"E051", "HashTable", .low, true, false,
    "Key not present",
    "Insert the key before replacing it"⟩,
  ⟨"E052", "HashTable", .low, true, false,
    "Value blob is empty",
    "Store at least one byte"⟩,
  ⟨"I001", "Success", .low, true, false,
    "Logging initialized",
    "None"⟩,
  ⟨"I010", "Success", .low, true, false,
    "Source pushed onto the scanner",
    "None"⟩,
  ⟨"I011", "Success", .low, true, false,
    "Source popped from the scanner",
    "None"⟩,
  ⟨"I020", "Success", .low, true, false,
    "All sources scanned",
    "None"⟩,
  ⟨"I040", "Success", .low, true, false,
    "Symbol declared",
    "None"⟩]

/-- The register's row for a code. -/
def info? (code : String) : Option CodeInfo := register.find? (·.code == code)

/-- The severity of a code. -/
def severityOf (code : String) : Severity := ((info? code).map (·.severity)).getD .medium

/-- A run may go on after a problem of this code. -/
def isRecoverable (code : String) : Bool := ((info? code).map (·.recoverable)).getD true

/-- A run stops at a problem of this code. -/
def requiresHalt (code : String) : Bool := ((info? code).map (·.requiresHalt)).getD false

/-- The description shown where the register has none. -/
def unknownDescription : String := "Unknown error"

/-- The action shown where the register has none. -/
def unknownAction : String := "No specific action available"

/-- What a code means. -/
def descriptionOf (code : String) : String :=
  ((info? code).map (·.description)).getD unknownDescription

/-- What to do about a code. -/
def actionOf (code : String) : String := ((info? code).map (·.action)).getD unknownAction

/-- The part of the program that a code belongs to. -/
def categoryOf (code : String) : String := ((info? code).map (·.category)).getD "Unknown"

end Diagnostic
end ClassIndex
