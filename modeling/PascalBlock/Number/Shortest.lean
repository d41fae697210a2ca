import PascalBlock.Number.Decimal

/-!
# Shortest digits

The digits that stand for a real are the fewest that read back to it, and of those the nearest to
it. The real lies between two neighbours on each decimal grid; the grids are tried from the coarsest
on.
-/

namespace PascalBlock.Shortest

/-- Where the decimal point of the magnitude of rank `r` stands, for `0 < r`. Scaled by `10 ^ 330`
every magnitude is beyond one, so its whole part shows the place. -/
def pointOf (r : Nat) : Int :=
  (Decimal.digitCount (Binary64.units r * Nat.pow 10 330 / Nat.pow 2 1074) : Int) - 330

/-- The magnitude of rank `r` on the grid of the multiples of `10 ^ e`: the neighbour below, and
whether the neighbour above is at least as near. -/
def onGrid (r : Nat) (e : Int) : Nat × Bool :=
  let num := Binary64.units r * Nat.pow 10 (-e).toNat
  let den := Nat.pow 2 1074 * Nat.pow 10 e.toNat
  (num / den, den ≤ 2 * (num % den))

/-- The better of the two neighbours on the grid of `10 ^ e` that read back to rank `r`. -/
def candidate? (r : Nat) (e : Int) : Option Decimal :=
  let (below, up) := onGrid r e
  let low : Decimal := ⟨below, e⟩
  let high : Decimal := ⟨below + 1, e⟩
  let (first, second) := if up then (high, low) else (low, high)
  if first.rank = r then some first else if second.rank = r then some second else none

/-- The magnitude of rank `r` in full. -/
def exact (r : Nat) : Decimal := ⟨Binary64.units r * Nat.pow 5 1074, -1074⟩

/-- The first grid with a neighbour that reads back, from `n` digits on, for `tries` numbers of
digits. -/
def search (r : Nat) (point : Int) : Nat → Nat → Decimal
  | 0, _ => exact r
  | tries + 1, n => (candidate? r (point - n)).getD (search r point tries (n + 1))

/-- The shortest decimal that reads back to rank `r`, for `0 < r`. Seventeen digits tell every two
reals apart. -/
def shortest (r : Nat) : Decimal := search r (pointOf r) 17 1

end PascalBlock.Shortest
