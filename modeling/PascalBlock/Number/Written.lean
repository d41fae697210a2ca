import PascalBlock.Number.Shortest

/-!
# Reals in writing

A real always shows that it is one: by a point with digits on both sides, or by an exponent. The
point is kept in place for the decimal exponents from `-4` to `15`; beyond, one digit stands before
it and an exponent without plus sign and padding behind.
-/

namespace PascalBlock

/-- The digits of a number without the zeros at their end. -/
def significant (n : Nat) : List Char :=
  ((Nat.toDigits 10 n).reverse.dropWhile (· == '0')).reverse

/-- Digits around a point that stays in place. -/
def positional (digits : List Char) (point : Int) : List Char :=
  if point ≤ 0 then ['0', '.'] ++ List.replicate (-point).toNat '0' ++ digits
  else
    let whole := digits.take point.toNat
    let fraction := digits.drop point.toNat
    whole ++ List.replicate (point.toNat - whole.length) '0' ++ ['.'] ++
      if fraction.isEmpty then ['0'] else fraction

/-- One digit before the point, and an exponent. -/
def scientific (digits : List Char) (point : Int) : List Char :=
  let fraction := digits.drop 1
  digits.take 1 ++ (if fraction.isEmpty then [] else '.' :: fraction) ++
    ['e'] ++ (toString (point - 1)).toList

/-- A positive decimal in writing. -/
def Decimal.written (d : Decimal) : List Char :=
  if -4 < d.point ∧ d.point ≤ 16 then positional (significant d.coefficient) d.point
  else scientific (significant d.coefficient) d.point

namespace Binary64

/-- The magnitude of rank `r` in writing. -/
def magnitudeText (r : Nat) : List Char :=
  if r = 0 then ['0', '.', '0'] else (Shortest.shortest r).written

/-- A real in writing. The sign of zero shows. -/
def text : Binary64 → String
  | .finite negative rank =>
    String.ofList ((if negative then ['-'] else []) ++ magnitudeText rank)
  | .infinite negative => if negative then "-inf" else "inf"
  | .nan => "NaN"

end Binary64

end PascalBlock
