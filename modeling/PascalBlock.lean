import PascalBlock.Unicode.Property
import PascalBlock.Unicode.Printable
import PascalBlock.Unicode.Casing
import PascalBlock.Unicode.Lowercase
import PascalBlock.Text.Quoted
import PascalBlock.Text.Line
import PascalBlock.Text.Splitter
import PascalBlock.Number.Binary64
import PascalBlock.Number.Decimal
import PascalBlock.Number.Shortest
import PascalBlock.Number.Written
import PascalBlock.Error
import PascalBlock.Token.Kind
import PascalBlock.Token.Basic
import PascalBlock.Token.Lexeme
import PascalBlock.Token.Scan
import PascalBlock.Token.Cursor
import PascalBlock.Diagnostic
import PascalBlock.Scope
import PascalBlock.CrossReference
import PascalBlock.Node.Kind
import PascalBlock.Node.Basic
import PascalBlock.Node.Shape
import PascalBlock.Node.Dump
import PascalBlock.Node.Source
import PascalBlock.Parser.State
import PascalBlock.Parser.Expression
import PascalBlock.Parser.Statement
import PascalBlock.Report
import PascalBlock.CommandLine
import PascalBlock.Main
import PascalBlock.Proofs.Parser.Effect
import PascalBlock.Proofs.Parser.Operand
import PascalBlock.Proofs.Parser.Statement
import PascalBlock.Proofs.Node.Preorder
import PascalBlock.Proofs.Parser.MissingOperands
import PascalBlock.Proofs.Parser.TokensKept
import PascalBlock.Proofs.Grammar
import PascalBlock.Proofs.Parser.Acceptance
import PascalBlock.Proofs.Number.Rounding
import PascalBlock.Proofs.Number.Shortest
import PascalBlock.Proofs.Number.Written
import PascalBlock.Proofs.Token.Lexing
import PascalBlock.Proofs.Node.WellFormed
import PascalBlock.Proofs.Unicode.Lowercase
import PascalBlock.Proofs.Node.Source
import PascalBlock.Proofs.RoundTrip
import PascalBlock.Proofs.Text.Longest
import PascalBlock.Proofs.Token.Language
import PascalBlock.Proofs.Text.Regex
import PascalBlock.Proofs.Text.LetterCase
import PascalBlock.Proofs.Token.Leftmost
import PascalBlock.Proofs.Token.FirstMatch
import PascalBlock.Proofs.Token.Tiling
import PascalBlock.Proofs.Token.Walk
import PascalBlock.Proofs.Token.Joining
import PascalBlock.Proofs.Token.LetterCase
import PascalBlock.Proofs.Scope.Session
import PascalBlock.Proofs.Scope.Uses
import PascalBlock.Proofs.Scope.Tracked
import PascalBlock.Proofs.Scope.Nesting
import PascalBlock.Proofs.Parser.Names
import PascalBlock.Proofs.Parser.Notes
import PascalBlock.Proofs.Parser.Order
import PascalBlock.Proofs.Parser.Containment
import PascalBlock.Proofs.Parser.Elsewhere
import PascalBlock.Proofs.Parser.Omission
import PascalBlock.Proofs.Parser.Lookahead
import PascalBlock.Proofs.Parser.Progress
import PascalBlock.Proofs.Parser.Calls
import PascalBlock.Proofs.Parser.Levels
import PascalBlock.Proofs.Parser.Undefined
import PascalBlock.Proofs.Parser.TooDeep
import PascalBlock.Proofs.Parser.LetterCase
import PascalBlock.Proofs.Token.Lexical
import PascalBlock.Proofs.Token.Failure
import PascalBlock.Proofs.Parser.Accepted
import PascalBlock.Proofs.Precedence
import PascalBlock.Proofs.Listing
import PascalBlock.Proofs.LineNumbers
import PascalBlock.Proofs.LetterCase
import PascalBlock.Proofs.Token.Quoting
import PascalBlock.Proofs.Node.Brackets
import PascalBlock.Proofs.Parser.Partial
import PascalBlock.Proofs.PartialSource
import PascalBlock.Proofs.Parser.Blocks
import PascalBlock.Proofs.Parser.Starts
import PascalBlock.Proofs.SourceOrder
import PascalBlock.Proofs.Node.Labelled
import PascalBlock.Proofs.Node.Shape
import PascalBlock.Proofs.Parser.Labelled
import PascalBlock.Proofs.TreeShape
import PascalBlock.Proofs.Node.Tags
import PascalBlock.Proofs.Node.Dump
import PascalBlock.Proofs.Node.Named
import PascalBlock.Proofs.Scope.Sorted
import PascalBlock.Proofs.Text.Words
import PascalBlock.Proofs.TreeDump
import PascalBlock.Proofs.CrossReference
import PascalBlock.Proofs.Caret
import PascalBlock.Proofs.Text.Offset
