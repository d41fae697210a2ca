import PascalBlock.Error
import PascalBlock.Text.Line
import PascalBlock.Token.Basic
import PascalBlock.Token.Lexeme

/-!
# From text to tokens

A reader stands between two characters of a source and knows its line and its offset in bytes. What
it reports of the offset is a word of 32 bits, which starts again at zero every `2 ^ 32` bytes. The
line is counted in such a word, and nothing checks that it fits: behind `2 ^ 32 - 1` line feeds it
is zero. The scan takes one lexeme after the other; blanks and comments only move the reader, every
other lexeme becomes a token. It stops with an error at the first character that begins no lexeme,
and at a number that is out of range.
-/

namespace PascalBlock

/-- A place in a named source: the text that follows, and the offset and the line it starts at. -/
structure Reader where
  file : String
  rest : List Char
  offset : Nat
  line : UInt32

namespace Reader

/-- At the start of a source. -/
def ofSource (source file : String) : Reader := ⟨file, source.toList, 0, 1⟩

/-- The next character, or NUL at the end. -/
def current (r : Reader) : Char := r.rest.headD '\x00'

def atEnd (r : Reader) : Bool := r.rest.isEmpty

/-- The positions of the next `n` bytes: where they start and where they stop. -/
def span (r : Reader) (n : Nat) : Position × Position :=
  (⟨r.file, .ofNat r.offset⟩, ⟨r.file, .ofNat (r.offset + n)⟩)

/-- Where the reader stands. -/
def position (r : Reader) : Position := (r.span 0).1

/-- Past `piece`, which is followed by `rest`. -/
def past (r : Reader) (piece rest : List Char) : Reader :=
  ⟨r.file, rest, r.offset + Text.byteLength piece, r.line + .ofNat (Text.newlines piece)⟩

/-- The characters of `cs` that lie wholly within its first `n` bytes. -/
def takeBytes : Nat → List Char → List Char
  | _, [] => []
  | n, c :: cs => if c.utf8Size ≤ n then c :: takeBytes (n - c.utf8Size) cs else []

/-- Past the next `n` bytes. -/
def advance (r : Reader) (n : Nat) : Reader :=
  let piece := takeBytes n r.rest
  r.past piece (r.rest.drop piece.length)

/-- A token spelled `piece` here. -/
def token (r : Reader) (kind : TokenKind) (piece : List Char) (literal : Option Literal) : Token :=
  let (start, stop) := r.span (Text.byteLength piece)
  ⟨kind, String.ofList piece, literal, r.line, start, stop⟩

/-- The token that marks the end of the source here. -/
def endToken (r : Reader) : Token := .endAt r.line r.position

/-- An error that shows here. -/
def error (r : Reader) (cause : Cause) : Error := ⟨cause, r.position⟩

end Reader

/-! ## The value of a lexeme -/

/-- The greatest value of an integer token. -/
def maxInteger : Nat := Nat.pow 2 63 - 1

/-- Two quotes in a row become one. -/
def undouble : List Char → List Char
  | [] => []
  | '\'' :: '\'' :: cs => '\'' :: undouble cs
  | c :: cs => c :: undouble cs

/-- The value of a string lexeme: without the outer quotes, and with every pair of quotes inside as
one. -/
def stringValue (piece : List Char) : String := String.ofList (undouble (piece.drop 1).dropLast)

/-- The reserved word that a word spells in any case, or else an identifier. -/
def wordKind (piece : List Char) : TokenKind :=
  (TokenKind.ofReserved? (String.ofList (piece.map Char.toLower))).getD .identifier

/-- The value of a real lexeme, if it is within the range of the reals. -/
def realValue? (piece : List Char) : Option Binary64 :=
  ((Decimal.ofChars? piece).map (Decimal.toBinary64 false)).filter Binary64.isFinite

namespace LexemeClass

/-- The token of a piece that this class has taken at `r`; blanks and comments give none. -/
def token? (r : Reader) (piece : List Char) : LexemeClass → Except Error (Option Token)
  | blank | comment => .ok none
  | word => .ok (r.token (wordKind piece) piece none)
  | real =>
    match realValue? piece with
    | some x => .ok (r.token .real piece (some (.real x)))
    | none => .error (r.error (.numberParse (String.ofList piece)))
  | integer =>
    let n := Decimal.ofDigits piece
    if n ≤ maxInteger then .ok (r.token .integer piece (some (.integer n)))
    else .error (r.error (.numberParse (String.ofList piece)))
  | string => .ok (r.token .string piece (some (.string (stringValue piece))))
  | symbol _ kind => .ok (r.token kind piece none)

end LexemeClass

/-! ## The scan -/

/-- Scans what is left behind `r`, with the tokens found before in reverse order. -/
def Reader.scan (r : Reader) (before : List Token) : Except Error (List Token) :=
  match _h : LexemeClass.next? r.rest with
  | some (c, piece, rest) =>
    match c.token? r piece with
    | .ok none => (r.past piece rest).scan before
    | .ok (some t) => (r.past piece rest).scan (t :: before)
    | .error e => .error e
  | none =>
    if r.atEnd then .ok ((r.endToken :: before).reverse)
    else .error (r.error (.unrecognisedToken (String.singleton r.current)))
termination_by r.rest.length
decreasing_by
  all_goals exact LexemeClass.next?_length_lt ‹_›

/-- The tokens of a source, the last of which marks its end. -/
def tokenize (source file : String) : Except Error (List Token) :=
  (Reader.ofSource source file).scan []

end PascalBlock
