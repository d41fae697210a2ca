import PascalBlock.Number.Binary64

/-!
# Decimal numbers

A decimal is a whole coefficient times a power of ten. It is read from digits with an optional point
and an optional exponent, and rounded to the nearest real.
-/

namespace PascalBlock

/-- The number `coefficient * 10 ^ exponent`. -/
structure Decimal where
  coefficient : Nat
  exponent : Int
deriving DecidableEq, Repr

namespace Decimal

/-- The number of decimal digits of `n`; zero has one. -/
def digitCount (n : Nat) : Nat := (Nat.toDigits 10 n).length

/-- Where the decimal point stands, counted from the first digit of the coefficient: a positive
decimal lies from `10 ^ (point - 1)` on and below `10 ^ point`. -/
def point (d : Decimal) : Int := digitCount d.coefficient + d.exponent

/-- The rank of the nearest real. From `10 ^ 310` on that is infinity and below `10 ^ -330` zero,
without a look at the digits. -/
def rank (d : Decimal) : Nat :=
  if d.coefficient = 0 then 0
  else if 310 < d.point then Binary64.rankCount
  else if d.point < -330 then 0
  else Binary64.nearestRank
    (d.coefficient * Nat.pow 10 d.exponent.toNat * Nat.pow 2 1074) (Nat.pow 10 (-d.exponent).toNat)

/-- The nearest real, with a sign in front. -/
def toBinary64 (negative : Bool) (d : Decimal) : Binary64 := .ofRank negative d.rank

/-! ## Reading -/

/-- The number that a list of decimal digits spells. -/
def ofDigits (cs : List Char) : Nat := Nat.ofDigitChars 10 cs 0

/-- One or more digits, and nothing else. -/
def digits? (cs : List Char) : Option Nat :=
  if !cs.isEmpty && cs.all Char.isDigit then some (ofDigits cs) else none

/-- A sign, if there is one: whether it is a minus, and what follows. -/
def splitSign : List Char → Bool × List Char
  | '-' :: cs => (true, cs)
  | '+' :: cs => (false, cs)
  | cs => (false, cs)

/-- The exponent behind the digits: nothing, or `e` and a signed number. -/
def exponent? : List Char → Option Int
  | [] => some 0
  | c :: cs =>
    if c = 'e' ∨ c = 'E' then
      let (negative, ds) := splitSign cs
      (digits? ds).map fun n => if negative then -(n : Int) else n
    else none

/-- The digits behind a point, if there is one, and what follows. -/
def splitFraction : List Char → List Char × List Char
  | '.' :: cs => (cs.takeWhile Char.isDigit, cs.dropWhile Char.isDigit)
  | cs => ([], cs)

/-- A decimal without a sign: digits on at least one side of an optional point, then an optional
exponent. -/
def ofChars? (cs : List Char) : Option Decimal :=
  let whole := cs.takeWhile Char.isDigit
  let (fraction, rest) := splitFraction (cs.dropWhile Char.isDigit)
  if whole.isEmpty && fraction.isEmpty then none
  else (exponent? rest).map fun e => ⟨ofDigits (whole ++ fraction), e - fraction.length⟩

end Decimal

/-- Reads a real: an optional sign, then a decimal, `inf`, `infinity` or `nan` in any case. -/
def Binary64.ofText? (s : String) : Option Binary64 :=
  let (negative, cs) := Decimal.splitSign s.toList
  match String.ofList (cs.map Char.toLower) with
  | "inf" | "infinity" => some (.infinite negative)
  | "nan" => some .nan
  | _ => (Decimal.ofChars? cs).map (Decimal.toBinary64 negative)

end PascalBlock
