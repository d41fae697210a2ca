import Mathlib
import PascalBlock.Number.Binary64

/-!
# Rounding to a rank

Magnitudes grow with their rank (`units_lt`), so the search of `floorRank` finds the one greatest
rank below a fraction (`floorRank_spec`), and a fraction that is a magnitude itself rounds to it
(`nearestRank_units_mul`). Only the value of a fraction counts (`nearestRank_mul`).
-/

namespace PascalBlock.Binary64

/-! ## Magnitudes -/

theorem units_eq (r : Nat) :
    units r = if r < 2 ^ 52 then r else (2 ^ 52 + r % 2 ^ 52) * 2 ^ (r / 2 ^ 52 - 1) := rfl

theorem units_of_lt {r : Nat} (h : r < 2 ^ 52) : units r = r := if_pos h

/-- In the `b`-th binade, behind those of the small ranks. -/
theorem units_binade (b : Nat) {m : Nat} (hm : m < 2 ^ 52) :
    units (2 ^ 52 * (b + 1) + m) = (2 ^ 52 + m) * 2 ^ b := by
  have hge : ¬ 2 ^ 52 * (b + 1) + m < 2 ^ 52 := by omega
  have hmod : (2 ^ 52 * (b + 1) + m) % 2 ^ 52 = m := by omega
  have hdiv : (2 ^ 52 * (b + 1) + m) / 2 ^ 52 = b + 1 := by omega
  rw [units_eq, if_neg hge, hmod, hdiv, Nat.add_sub_cancel]

/-- The next rank is the next magnitude. -/
theorem units_lt_succ (r : Nat) : units r < units (r + 1) := by
  by_cases hr : r < 2 ^ 52
  · rw [units_of_lt hr]
    by_cases hr' : r + 1 < 2 ^ 52
    · rw [units_of_lt hr']
      omega
    · have hlast : r + 1 = 2 ^ 52 * (0 + 1) + 0 := by omega
      rw [hlast, units_binade 0 (by decide)]
      omega
  · obtain ⟨b, m, hm, rfl⟩ : ∃ b m, m < 2 ^ 52 ∧ r = 2 ^ 52 * (b + 1) + m :=
      ⟨r / 2 ^ 52 - 1, r % 2 ^ 52, by omega, by omega⟩
    have hpos : 0 < 2 ^ b := Nat.pow_pos (by decide)
    rw [units_binade b hm]
    by_cases hm' : m + 1 < 2 ^ 52
    · rw [show 2 ^ 52 * (b + 1) + m + 1 = 2 ^ 52 * (b + 1) + (m + 1) from rfl, units_binade b hm']
      exact Nat.mul_lt_mul_of_pos_right (by omega) hpos
    · -- the last rank of a binade is followed by the first of the next one
      have hlast : 2 ^ 52 * (b + 1) + m + 1 = 2 ^ 52 * (b + 1 + 1) + 0 := by omega
      have hdouble : 2 ^ (b + 1) = 2 * 2 ^ b := by rw [Nat.pow_succ, Nat.mul_comm]
      rw [hlast, units_binade (b + 1) (by decide), hdouble, ← Nat.mul_assoc]
      exact Nat.mul_lt_mul_of_pos_right (by omega) hpos

theorem units_lt {r s : Nat} (h : r < s) : units r < units s := by
  induction h with
  | refl => exact units_lt_succ r
  | step _ ih => exact Nat.lt_trans ih (units_lt_succ _)

theorem units_le {r s : Nat} (h : r ≤ s) : units r ≤ units s := by
  rcases Nat.lt_or_eq_of_le h with hlt | rfl
  · exact Nat.le_of_lt (units_lt hlt)
  · exact Nat.le_refl _

/-! ## The search -/

theorem floorRank_succ (num den bits base : Nat) :
    floorRank num den (bits + 1) base =
      if units (base + 2 ^ bits) * den ≤ num then floorRank num den bits (base + 2 ^ bits)
      else floorRank num den bits base := rfl

/-- The search stays among the ranks it is given, and ends at the greatest one of them whose
magnitude is not too large. -/
theorem floorRank_spec (num den : Nat) : ∀ (bits base : Nat), units base * den ≤ num →
    units (floorRank num den bits base) * den ≤ num ∧
      ∀ s, s < base + 2 ^ bits → units s * den ≤ num → s ≤ floorRank num den bits base
  | 0, base, h => ⟨h, fun s hs _ => by simp only [floorRank]; omega⟩
  | bits + 1, base, h => by
    have htwo : 2 ^ (bits + 1) = 2 ^ bits + 2 ^ bits := by omega
    rw [floorRank_succ]
    split
    · next hup =>
      obtain ⟨hle, hmax⟩ := floorRank_spec num den bits (base + 2 ^ bits) hup
      exact ⟨hle, fun s hs => hmax s (by omega)⟩
    · next hup =>
      obtain ⟨hle, hmax⟩ := floorRank_spec num den bits base h
      refine ⟨hle, fun s hs hsle => hmax s ?_ hsle⟩
      -- beyond the tested rank everything is too large
      refine Nat.lt_of_not_le fun hge => hup ?_
      exact Nat.le_trans (Nat.mul_le_mul_right den (units_le hge)) hsle

/-- The search finds a magnitude itself. -/
theorem floorRank_units {r : Nat} (h : r < 2 ^ 63) : floorRank (units r) 1 63 0 = r := by
  obtain ⟨hle, hmax⟩ := floorRank_spec (units r) 1 63 0 (by simp [units])
  refine Nat.le_antisymm ?_ (hmax r (by omega) (by omega))
  refine Nat.le_of_not_lt fun hgt => ?_
  have := units_lt hgt
  omega

/-- A common factor does not change a fraction. -/
theorem floorRank_mul {num den k : Nat} (hk : 0 < k) : ∀ bits base : Nat,
    floorRank (num * k) (den * k) bits base = floorRank num den bits base
  | 0, _ => rfl
  | bits + 1, base => by
    simp only [floorRank_succ, ← Nat.mul_assoc, Nat.mul_le_mul_right_iff hk, floorRank_mul hk bits]

/-! ## Rounding -/

theorem nearestRank_mul {num den k : Nat} (hk : 0 < k) :
    nearestRank (num * k) (den * k) = nearestRank num den := by
  simp only [nearestRank, floorRank_mul hk, ← Nat.mul_assoc, Nat.mul_lt_mul_right hk]

/-- A magnitude rounds to its own rank. -/
theorem nearestRank_units_mul {r k : Nat} (h : r < 2 ^ 63) (hk : 0 < k) :
    nearestRank (units r * k) k = r := by
  have hmul : nearestRank (units r * k) (1 * k) = nearestRank (units r) 1 := nearestRank_mul hk
  rw [Nat.one_mul] at hmul
  have hnext := units_lt_succ r
  rw [hmul]
  simp only [nearestRank, floorRank_units h, Nat.mul_one]
  rw [if_pos (by omega)]

end PascalBlock.Binary64
