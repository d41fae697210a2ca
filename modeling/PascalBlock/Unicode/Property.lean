/-!
# Properties of code points

A Unicode property is kept as the increasing list of its closed intervals of code points. The
property `White_Space` is one: every blank that may stand between two tokens, and every blank
trimmed from the end of a shown source line, is a character of it.
-/

namespace PascalBlock.Unicode

/-- Closed intervals of code points, in increasing order. -/
abbrev Ranges := List (Nat × Nat)

/-- Membership. The search ends at the first interval that starts beyond the code point, so a small
one is decided by the first few intervals. -/
def Ranges.contains : Ranges → Nat → Bool
  | [], _ => false
  | (lo, hi) :: rest, n => if n < lo then false else n ≤ hi || Ranges.contains rest n

/-- The 25 characters of `White_Space`. -/
def whiteSpace : Ranges := [
  (0x0009, 0x000d), (0x0020, 0x0020), (0x0085, 0x0085), (0x00a0, 0x00a0), (0x1680, 0x1680),
  (0x2000, 0x200a), (0x2028, 0x2029), (0x202f, 0x202f), (0x205f, 0x205f), (0x3000, 0x3000)]

def isWhiteSpace (c : Char) : Bool := whiteSpace.contains c.toNat

end PascalBlock.Unicode
