import PascalBlock.Text.Splitter
import PascalBlock.Token.Kind
import PascalBlock.Unicode.Property

/-!
# Lexemes

What a source is made of: blanks and comments between the tokens, and the tokens. The classes are
tried in the order of `LexemeClass.all`, and the first that fits takes its piece. It takes at least
one character, so less is left behind it (`next?_length_lt`).
-/

namespace PascalBlock

inductive LexemeClass where
  | blank | comment | word | real | integer | string
  | symbol (spelling : String) (kind : TokenKind)
deriving DecidableEq, Repr

namespace LexemeClass

open Text Splitter

def isLetter (c : Char) : Bool := c.isAlpha

/-- Letters, digits and the low line go on with a word. -/
def isWordRest (c : Char) : Bool := c.isAlphanum || c == '_'

def digits : Splitter := many1 Char.isDigit

/-- `e`, an optional sign, and digits. -/
def exponent : Splitter :=
  (one fun c => c == 'e' || c == 'E').andThen
    ((one fun c => c == '+' || c == '-').optional.andThen digits)

/-- A point and digits. -/
def fraction : Splitter := (one (· == '.')).andThen digits

/-- The rest of a string behind its opening quote. A quote written twice goes on; when no closing
quote follows any more, the first quote of the last such pair closes the string. -/
def stringRest : Splitter
  | [] => none
  | '\'' :: '\'' :: cs =>
    match stringRest cs with
    | some (x, rest) => some ('\'' :: '\'' :: x, rest)
    | none => some (['\''], '\'' :: cs)
  | c :: cs =>
    if c = '\'' then some (['\''], cs)
    else (stringRest cs).map fun (x, rest) => (c :: x, rest)

/-- The piece that a class takes off the front of a text. -/
def split? : LexemeClass → Splitter
  | blank => many1 Unicode.isWhiteSpace
  | comment => (one (· == '\x7b')).andThen ((many (· != '\x7d')).andThen (one (· == '\x7d')))
  | word => (one isLetter).andThen (many isWordRest)
  | real => digits.andThen ((fraction.andThen exponent.optional).orElse exponent)
  | integer => digits
  | string => (one (· == '\'')).andThen stringRest
  | symbol spelling _ => exactly spelling.toList

/-- The classes in the order in which they are tried. -/
def all : List LexemeClass :=
  [blank, comment, word, real, integer, string] ++
    TokenKind.symbols.map fun (spelling, kind) => symbol spelling kind

/-- The first class that fits the front of a text, the piece it takes, and what follows. -/
def next? (cs : List Char) : Option (LexemeClass × List Char × List Char) :=
  all.findSome? fun c => (c.split? cs).map (c, ·)

/-! ## Nothing is lost, and something is taken -/

theorem sound_many1 (p : Char → Bool) : Sound (many1 p) := (sound_one p).andThen (sound_many p)

theorem sound_exponent : Sound exponent :=
  (sound_one _).andThen ((sound_one _).optional.andThen (sound_many1 _))

theorem sound_stringRest : Sound stringRest := by
  intro cs
  fun_induction stringRest cs with
  | case1 => simp
  | case2 cs x rest h ih => intro y r e; grind
  | case3 cs h ih => intro y r e; grind
  | case4 cs h => intro y r e; grind
  | case5 c cs h hc ih =>
    intro y r e
    simp only [Option.map_eq_some_iff, Prod.mk.injEq] at e
    obtain ⟨⟨x, rest⟩, hx, rfl, rfl⟩ := e
    rw [List.cons_append, ih _ _ hx]

theorem sound_split? : ∀ c : LexemeClass, Sound c.split?
  | blank => sound_many1 _
  | comment => (sound_one _).andThen ((sound_many _).andThen (sound_one _))
  | word => (sound_one _).andThen (sound_many _)
  | real =>
    let sound_fraction := (sound_one _).andThen (sound_many1 _)
    (sound_many1 _).andThen ((sound_fraction.andThen sound_exponent.optional).orElse sound_exponent)
  | integer => sound_many1 _
  | string => (sound_one _).andThen sound_stringRest
  | symbol _ _ => sound_exactly _

theorem consumes_split? : ∀ c ∈ all, Consumes c.split?
  | blank, _ => (consumes_one _).andThen _
  | comment, _ => (consumes_one _).andThen _
  | word, _ => (consumes_one _).andThen _
  | real, _ => ((consumes_one _).andThen _).andThen _
  | integer, _ => (consumes_one _).andThen _
  | string, _ => (consumes_one _).andThen _
  | symbol spelling kind, h => by
    intro cs x rest e
    have hne : ∀ s ∈ TokenKind.symbols, s.1.toList ≠ [] := by decide
    have hm : (spelling, kind) ∈ TokenKind.symbols := by simpa [all] using h
    simp only [split?, exactly, Option.map_eq_some_iff, Prod.mk.injEq] at e
    obtain ⟨_, _, rfl, _⟩ := e
    exact hne _ hm

theorem next?_eq_some {cs x rest : List Char} {c : LexemeClass}
    (h : next? cs = some (c, x, rest)) : c ∈ all ∧ c.split? cs = some (x, rest) := by
  obtain ⟨d, hd, e⟩ := List.exists_of_findSome?_eq_some h
  simp only [Option.map_eq_some_iff, Prod.mk.injEq] at e
  obtain ⟨_, hs, rfl, rfl⟩ := e
  exact ⟨hd, hs⟩

theorem next?_length_lt {cs x rest : List Char} {c : LexemeClass}
    (h : next? cs = some (c, x, rest)) : rest.length < cs.length :=
  length_lt (sound_split? c) (consumes_split? c (next?_eq_some h).1) (next?_eq_some h).2

end LexemeClass

end PascalBlock
