import PascalBlock.Unicode.Property

/-!
# Source lines

A line ends with its line feed, the last one at the end of the text. Offsets count bytes of the
UTF-8 form. `lineAt` finds the line that holds an offset.
-/

namespace PascalBlock.Text

/-- The number of bytes of the UTF-8 form. -/
def byteLength : List Char → Nat
  | [] => 0
  | c :: cs => c.utf8Size + byteLength cs

/-- The number of line feeds. -/
def newlines (cs : List Char) : Nat := cs.count '\n'

/-- The text without the blanks at its end. -/
def trimEnd (cs : List Char) : List Char := (cs.reverse.dropWhile Unicode.isWhiteSpace).reverse

/-- Puts a character in front of the first of `lines`; a line feed is a line by itself there. -/
def consLine (c : Char) : List (List Char) → List (List Char)
  | [] => [[c]]
  | line :: lines => if c = '\n' then [c] :: line :: lines else (c :: line) :: lines

/-- The lines of a text, each with the line feed that ends it; an empty text has none. -/
def lines (cs : List Char) : List (List Char) := cs.foldr consLine []

/-- A line of a source: its number from 1, its text, and the offset in it that was asked for. -/
structure Line where
  number : Nat
  text : List Char
  offset : Nat
deriving DecidableEq, Repr

/-- Walks along `lines`, of which the first has the given number, to the one that holds `offset`.
The end of the text belongs to the last line. -/
def locate : List (List Char) → Nat → Nat → Option Line
  | [], _, _ => none
  | [line], number, offset => if offset ≤ byteLength line then some ⟨number, line, offset⟩ else none
  | line :: next :: rest, number, offset =>
    if offset < byteLength line then some ⟨number, line, offset⟩
    else locate (next :: rest) (number + 1) (offset - byteLength line)

/-- The line of `source` that holds the byte `offset`. There is none beyond the end of the text, nor
in an empty text. -/
def lineAt (source : String) (offset : Nat) : Option Line := locate (lines source.toList) 1 offset

end PascalBlock.Text
