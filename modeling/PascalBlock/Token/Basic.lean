import PascalBlock.Error
import PascalBlock.Number.Written
import PascalBlock.Unicode.Lowercase
import PascalBlock.Token.Kind

/-!
# Tokens

A token keeps its spelling, the value it denotes when it is a literal, and where it stands: the line
it starts on, and the positions where it starts and where it stops. The line is a word of 32 bits,
as the offset of a position is.
-/

namespace PascalBlock

/-- The value of a literal. -/
inductive Literal where
  | integer (value : Int)
  | real (value : Binary64)
  | string (value : String)
deriving DecidableEq, Repr

/-- A value in writing; a string is written bare. -/
def Literal.text : Literal → String
  | .integer n => toString n
  | .real x => x.text
  | .string s => s

structure Token where
  kind : TokenKind
  text : String
  literal : Option Literal
  line : UInt32
  start : Position
  stop : Position
deriving DecidableEq, Repr

namespace Token

/-- The token at the end of a text. -/
def endAt (line : UInt32) (place : Position) : Token :=
  ⟨.endOfText, "EOF", none, line, place, place⟩

/-- The name of an identifier, in which case does not count. -/
def name (t : Token) : String := Unicode.lowercase t.text

/-- A token over three lines, for a reader. -/
def display (t : Token) : String :=
  "Token \x7b\nkind: " ++ t.kind.name ++ ",\nvalue: " ++ t.text ++ "\x7d"

/-- A token on one line; the spelling shows only where the kind leaves it open. -/
def summary (t : Token) : String :=
  t.kind.name ++ " (" ++ (if t.kind.isOpen then t.text else "") ++ ") line " ++
    toString t.line.toNat

end Token

end PascalBlock
