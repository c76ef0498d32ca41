import ClassIndex.Buffer
import ClassIndex.Byte
import ClassIndex.CommandLine.Console
import ClassIndex.CommandLine.Options
import ClassIndex.CommandLine.Program
import ClassIndex.Cursor.Basic
import ClassIndex.Cursor.Number
import ClassIndex.Cursor.Quoted
import ClassIndex.Cursor.Sign
import ClassIndex.Cursor.Token
import ClassIndex.Cursor.Trivia
import ClassIndex.Decoration
import ClassIndex.Diagnostic.Code
import ClassIndex.Diagnostic.Event
import ClassIndex.Diagnostic.FileLog
import ClassIndex.Diagnostic.Journal
import ClassIndex.Fault
import ClassIndex.FileTree
import ClassIndex.Indexer.Basic
import ClassIndex.Indexer.Description
import ClassIndex.Indexer.Listing
import ClassIndex.Indexer.Run
import ClassIndex.Json
import ClassIndex.Main
import ClassIndex.Position
import ClassIndex.Scanner.Basic
import ClassIndex.Scanner.Weight
import ClassIndex.SearchPath
import ClassIndex.Settings
import ClassIndex.Source
import ClassIndex.Symbol.Basic
import ClassIndex.Symbol.Blob
import ClassIndex.SymbolTable
import ClassIndex.Table
import ClassIndex.Text.Blank
import ClassIndex.Text.Decimal
import ClassIndex.Text.Escape
import ClassIndex.Text.Quoted
import ClassIndex.Text.Shapeless
import ClassIndex.Text.Utf8
import ClassIndex.Token.Kind
import ClassIndex.Token.Listed
import ClassIndex.Token.Word
import ClassIndex.Toml.Literal
import ClassIndex.Toml.Reader
import ClassIndex.Toml.Value
import ClassIndex.Proofs.Cursor.Lockstep
import ClassIndex.Proofs.Cursor.Kind
import ClassIndex.Proofs.Cursor.Alike
import ClassIndex.Proofs.Scanner.Outcome
import ClassIndex.Proofs.Scanner.Isolation
import ClassIndex.Proofs.Table.Mapping
import ClassIndex.Proofs.Table.Load
import ClassIndex.Proofs.Table.Hash
import ClassIndex.Proofs.Cursor.Account
import ClassIndex.Proofs.Cursor.Begin
import ClassIndex.Proofs.Cursor.Kept
import ClassIndex.Proofs.Scanner.Account
import ClassIndex.Proofs.Cursor.Clean
import ClassIndex.Proofs.Token.Spelling
import ClassIndex.Proofs.Token.Digits
import ClassIndex.Proofs.Token.Literal
import ClassIndex.Proofs.Cursor.Quoted
import ClassIndex.Proofs.Cursor.Spelled
import ClassIndex.Proofs.Scanner.RoundTrip
import ClassIndex.Proofs.Scanner.Literal
import ClassIndex.Proofs.Scanner.Progress
import ClassIndex.Proofs.Scanner.Tiling
import ClassIndex.Proofs.Text.Utf8
import ClassIndex.Proofs.Json
import ClassIndex.Proofs.Json.Written
import ClassIndex.Proofs.Symbol.Blob
import ClassIndex.Proofs.SymbolTable.Register
import ClassIndex.Proofs.SymbolTable.Path
import ClassIndex.Proofs.Cursor.Loops
import ClassIndex.Proofs.Indexer.Termination
import ClassIndex.Proofs.Indexer.Place
import ClassIndex.Proofs.Indexer.Expansion
import ClassIndex.Proofs.Indexer.Inclusion
import ClassIndex.Proofs.Decoration
import ClassIndex.Proofs.Decoration.Parts
import ClassIndex.Proofs.Scanner.Resumption
import ClassIndex.Proofs.Scanner.Located
import ClassIndex.Proofs.Indexer.Located
import ClassIndex.Proofs.Indexer.Inlining
import ClassIndex.Proofs.Indexer.Calls
import ClassIndex.Proofs.Indexer.Stops
import ClassIndex.Proofs.Indexer.Reuse
import ClassIndex.Proofs.Text.Order
import ClassIndex.Proofs.SymbolTable.Order
import ClassIndex.Proofs.SymbolTable.Overloads
import ClassIndex.Proofs.Indexer.Invariant
import ClassIndex.Proofs.Indexer.Order
import ClassIndex.Proofs.Token.Numeral
import ClassIndex.Proofs.Cursor.Numeral
import ClassIndex.Proofs.Scanner.Numeral
import ClassIndex.Proofs.Diagnostic.FileLog
import ClassIndex.Proofs.Scanner.Faults
import ClassIndex.Proofs.Indexer.Recorded
import ClassIndex.Proofs.Cursor.Unknown
import ClassIndex.Proofs.CommandLine.Totals
import ClassIndex.Proofs.Cursor.Gathers
import ClassIndex.Proofs.Cursor.Graphic
import ClassIndex.Proofs.Cursor.Trivia
import ClassIndex.Proofs.Scanner.Trivia
import ClassIndex.Proofs.Cursor.Continuation
import ClassIndex.Proofs.Cursor.Segmented
import ClassIndex.Proofs.Scanner.Continuation
import ClassIndex.Proofs.Cursor.Malformed
import ClassIndex.Proofs.Scanner.Malformed
import ClassIndex.Proofs.Indexer.Malformed
import ClassIndex.Proofs.FileTree
import ClassIndex.Proofs.Indexer.Lines
import ClassIndex.Proofs.Table.Visit
import ClassIndex.Proofs.Text.Printed
import ClassIndex.Proofs.Scanner.Nesting
import ClassIndex.Proofs.Scanner.Failure
import ClassIndex.Proofs.Cursor.Remarks
import ClassIndex.Proofs.Cursor.Worded
import ClassIndex.Proofs.Scanner.Worded
import ClassIndex.Proofs.Diagnostic.Quotes
import ClassIndex.Proofs.Indexer.Quotes
import ClassIndex.Proofs.Scanner.Warnings
import ClassIndex.Proofs.Diagnostic.Summary
import ClassIndex.Proofs.SearchPath
import ClassIndex.Proofs.Indexer.Search
import ClassIndex.Proofs.CommandLine.Directories
import ClassIndex.Proofs.Scanner.Word
import ClassIndex.Proofs.Buffer.Packed
import ClassIndex.Proofs.Buffer.Capacity
import ClassIndex.Proofs.Scanner.Comment
