/-!
# Reals of sixty-four bits

The magnitudes of the finite values are counted upwards from zero: rank `r` holds the `r`-th of
them. Below `2 ^ 52` they are whole multiples of `2 ^ -1074`; from there on each `2 ^ 52` ranks
double the step. `nearestRank` rounds a fraction to a rank, and a rank beyond the last one is the
rank of infinity.
-/

namespace PascalBlock

namespace Binary64

/-- The number of finite magnitudes; as a rank, it stands for infinity. -/
abbrev rankCount : Nat := 2047 * Nat.pow 2 52

/-- The magnitude of rank `r` as a multiple of `2 ^ -1074`. -/
def units (r : Nat) : Nat :=
  if r < Nat.pow 2 52 then r
  else (Nat.pow 2 52 + r % Nat.pow 2 52) * Nat.pow 2 (r / Nat.pow 2 52 - 1)

/-- The greatest rank among `base, …, base + 2 ^ bits - 1` whose magnitude is at most `num / den`
units, where that of `base` is. One bit is settled at a time, from the highest. -/
def floorRank (num den : Nat) : Nat → Nat → Nat
  | 0, base => base
  | bits + 1, base =>
    let middle := base + Nat.pow 2 bits
    if units middle * den ≤ num then floorRank num den bits middle
    else floorRank num den bits base

/-- The rank of the magnitude nearest to `num / den` units; halfway goes to the even rank. -/
def nearestRank (num den : Nat) : Nat :=
  let low := floorRank num den 63 0
  let middle := (units low + units (low + 1)) * den
  if 2 * num < middle then low
  else if middle < 2 * num then low + 1
  else low + low % 2

end Binary64

/-- A real: a finite magnitude with a sign, an infinity, or no number at all. -/
inductive Binary64 where
  | finite (negative : Bool) (rank : Fin Binary64.rankCount)
  | infinite (negative : Bool)
  | nan
deriving DecidableEq, Repr

namespace Binary64

/-- The value of a sign and a rank. -/
def ofRank (negative : Bool) (rank : Nat) : Binary64 :=
  if h : rank < rankCount then .finite negative ⟨rank, h⟩ else .infinite negative

def isFinite : Binary64 → Bool
  | .finite .. => true
  | _ => false

end Binary64

end PascalBlock
