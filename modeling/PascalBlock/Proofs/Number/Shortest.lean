import Mathlib
import PascalBlock.Number.Shortest
import PascalBlock.Proofs.Number.Rounding

/-!
# Shortest digits read back

Whatever decimal `shortest` settles on rounds to the rank it was asked for. The grids are checked by
the search itself; the decimal in full needs a proof that rounding leaves magnitudes where they are.
-/

namespace PascalBlock

namespace Decimal

/-! ## The rank of a value -/

theorem rank_eq (d : Decimal) :
    d.rank = if d.coefficient = 0 then 0
      else if 310 < d.point then Binary64.rankCount
      else if d.point < -330 then 0
      else Binary64.nearestRank (d.coefficient * 10 ^ d.exponent.toNat * 2 ^ 1074)
        (10 ^ (-d.exponent).toNat) := rfl

/-- Zeros at the end of a number are zeros at the end of its digits. -/
theorem toDigits_mul_pow {c : Nat} (hc : 0 < c) (k : Nat) :
    Nat.toDigits 10 (c * 10 ^ k) = Nat.toDigits 10 c ++ List.replicate k '0' := by
  induction k with
  | zero => simp
  | succ k ih =>
    have hpos : 0 < c * 10 ^ k := Nat.mul_pos hc (Nat.pow_pos (by decide))
    have hshift : c * 10 ^ (k + 1) = 10 * (c * 10 ^ k) + 0 := by
      rw [Nat.pow_succ, Nat.add_zero, Nat.mul_comm 10, Nat.mul_assoc]
    rw [hshift, ← Nat.toDigits_append_toDigits (by decide) hpos (by decide), ih, Nat.toDigits_zero,
      List.append_assoc, ← List.replicate_succ']

theorem digitCount_mul_pow {c : Nat} (hc : 0 < c) (k : Nat) :
    digitCount (c * 10 ^ k) = digitCount c + k := by
  simp [digitCount, toDigits_mul_pow hc]

/-- Zeros at the end of the coefficient may as well stand in the exponent. -/
theorem rank_mul_pow {c : Nat} (hc : 0 < c) (k : Nat) (e : Int) :
    rank ⟨c * 10 ^ k, e⟩ = rank ⟨c, e + k⟩ := by
  have hne : c * 10 ^ k ≠ 0 := Nat.ne_of_gt (Nat.mul_pos hc (Nat.pow_pos (by decide)))
  have hpoint : point ⟨c * 10 ^ k, e⟩ = point ⟨c, e + k⟩ := by
    simp only [point, digitCount_mul_pow hc]
    omega
  -- what both fractions have in common
  obtain ⟨j, hnum, hden⟩ : ∃ j, k + e.toNat = (e + k).toNat + j ∧
      (-e).toNat = (-(e + k)).toNat + j := ⟨k + e.toNat - (e + k).toNat, by omega, by omega⟩
  have hscale (w : Nat) : c * 10 ^ k * 10 ^ e.toNat * w = c * 10 ^ (e + k).toNat * w * 10 ^ j := by
    calc c * 10 ^ k * 10 ^ e.toNat * w = c * (10 ^ (e + k).toNat * 10 ^ j) * w := by
          rw [Nat.mul_assoc c, ← Nat.pow_add, hnum, Nat.pow_add]
      _ = c * 10 ^ (e + k).toNat * w * 10 ^ j := by ac_rfl
  rw [rank_eq, rank_eq]
  rw [if_neg hne, if_neg (Nat.ne_of_gt hc), hpoint, hscale, hden, Nat.pow_add,
    Binary64.nearestRank_mul (Nat.pow_pos (by decide))]

theorem coefficient_pos {d : Decimal} (h : 0 < d.rank) : 0 < d.coefficient := by
  refine Nat.pos_of_ne_zero fun hc => ?_
  rw [rank_eq, if_pos hc] at h
  exact Nat.lt_irrefl 0 h

end Decimal

namespace Shortest

variable {r : Nat}

/-! ## In full -/

theorem exact_eq (r : Nat) : exact r = ⟨Binary64.units r * 5 ^ 1074, -1074⟩ := rfl

/-- Below the `b`-th binade. -/
theorem units_lt_pow {b : Nat} (h : r < 2 ^ 52 * (b + 1)) : Binary64.units r < 2 ^ (52 + b) := by
  have htop : Binary64.units (2 ^ 52 * (b + 1)) = 2 ^ (52 + b) := by
    have hfirst := Binary64.units_binade b (m := 0) (by decide)
    rwa [Nat.add_zero (2 ^ 52), Nat.add_zero, ← Nat.pow_add] at hfirst
  rw [← htop]
  exact Binary64.units_lt h

/-- The decimal in full is within the range that is looked at closely. -/
theorem point_exact (h0 : 0 < r) (h : r < Binary64.rankCount) :
    ¬ 310 < (exact r).point ∧ ¬ (exact r).point < -330 := by
  have hpos : 1 ≤ Binary64.units r := Binary64.units_lt h0
  have htop : Binary64.units r < 2 ^ (52 + 2046) := units_lt_pow (b := 2046) (by omega)
  have hhigh : Binary64.units r * 5 ^ 1074 < 10 ^ 1384 := by
    calc Binary64.units r * 5 ^ 1074 < 2 ^ (52 + 2046) * 5 ^ 1074 :=
          Nat.mul_lt_mul_of_pos_right htop (Nat.pow_pos (by decide))
      _ < 10 ^ 1384 := by decide +kernel
  have hlow : 10 ^ 743 ≤ Binary64.units r * 5 ^ 1074 := by
    calc 10 ^ 743 ≤ 1 * 5 ^ 1074 := by decide +kernel
      _ ≤ Binary64.units r * 5 ^ 1074 := Nat.mul_le_mul_right _ hpos
  have hcount : Decimal.digitCount (Binary64.units r * 5 ^ 1074) ≤ 1384 :=
    (Nat.length_toDigits_le_iff (b := 10) (k := 1384) (by decide) (by decide)).2 hhigh
  have hcount' : ¬ Decimal.digitCount (Binary64.units r * 5 ^ 1074) ≤ 743 :=
    mt (Nat.length_toDigits_le_iff (b := 10) (k := 743) (by decide) (by decide)).1
      (Nat.not_lt.2 hlow)
  have hpoint : (exact r).point =
      (Decimal.digitCount (Binary64.units r * 5 ^ 1074) : Int) + -1074 := by
    rw [exact_eq, Decimal.point]
  omega

theorem exact_rank (h0 : 0 < r) (h : r < Binary64.rankCount) : (exact r).rank = r := by
  have hpos : 0 < Binary64.units r * 5 ^ 1074 :=
    Nat.mul_pos (Binary64.units_lt h0) (Nat.pow_pos (a := 5) (n := 1074) (by decide))
  have hten : Binary64.units r * 5 ^ 1074 * 2 ^ 1074 = Binary64.units r * 10 ^ 1074 := by
    rw [Nat.mul_assoc, ← Nat.mul_pow 5 2 1074, show 5 * 2 = 10 from rfl]
  have hround : Binary64.nearestRank (Binary64.units r * 10 ^ 1074) (10 ^ 1074) = r :=
    Binary64.nearestRank_units_mul (Nat.lt_trans h (by decide))
      (Nat.pow_pos (a := 10) (n := 1074) (by decide))
  have hne : (exact r).coefficient ≠ 0 := Nat.ne_of_gt hpos
  obtain ⟨hhigh, hlow⟩ := point_exact h0 h
  rw [Decimal.rank_eq, if_neg hne, if_neg hhigh, if_neg hlow]
  have hnum : (exact r).exponent.toNat = 0 := rfl
  have hden : (-(exact r).exponent).toNat = 1074 := rfl
  have hcoefficient : (exact r).coefficient = Binary64.units r * 5 ^ 1074 := rfl
  rw [hnum, hden, hcoefficient, Nat.pow_zero, Nat.mul_one, hten, hround]

/-! ## The search -/

theorem candidate?_rank {e : Int} {d : Decimal} (h : candidate? r e = some d) : d.rank = r := by
  unfold candidate? at h
  obtain ⟨below, up⟩ := onGrid r e
  cases up <;> grind

theorem search_rank (h0 : 0 < r) (h : r < Binary64.rankCount) (point : Int) :
    ∀ tries n : Nat, (search r point tries n).rank = r
  | 0, _ => exact_rank h0 h
  | tries + 1, n => by
    unfold search
    cases hc : candidate? r (point - n) with
    | none => exact search_rank h0 h point tries (n + 1)
    | some d => exact candidate?_rank hc

/-- **The shortest digits read back** to the magnitude that they stand for. -/
theorem shortest_rank (h0 : 0 < r) (h : r < Binary64.rankCount) : (shortest r).rank = r :=
  search_rank h0 h _ 17 1

end Shortest

end PascalBlock
