import PascalBlock.Unicode.Lowercase

/-!
# Small letters of ASCII

Among the characters of ASCII only the capitals have another lower-case form, and they have one that
does not depend on what stands around them.
-/

namespace PascalBlock.Unicode

/-- The runs of ASCII come first, and there is one. -/
theorem lower_of_ascii {n : Nat} (hn : n < 128) (hcapital : ¬ (65 ≤ n ∧ n ≤ 90)) :
    CaseRun.lower caseRuns n = n := by
  unfold caseRuns
  rw [CaseRun.lower]
  split
  · rfl
  · next hlow =>
    simp only at hlow
    rw [if_neg (fun h => hcapital ⟨by omega, h.1⟩), CaseRun.lower, if_pos (by simp only; omega)]

theorem lower_of_capital {n : Nat} (h : 65 ≤ n) (h' : n ≤ 90) :
    CaseRun.lower caseRuns n = n + 32 := by
  unfold caseRuns
  rw [CaseRun.lower, if_neg (by simp only; omega), if_pos ⟨h', Nat.mod_one _⟩]
  simp only
  omega

theorem toLower_eq_self {c : Char} (h : ¬ (65 ≤ c.toNat ∧ c.toNat ≤ 90)) : c.toLower = c := by
  unfold Char.toLower
  rw [dif_neg]
  simpa [UInt32.le_iff_toNat_le] using h

theorem toNat_toLower {c : Char} (h : 65 ≤ c.toNat) (h' : c.toNat ≤ 90) :
    c.toLower.toNat = c.toNat + 32 := by
  unfold Char.toLower
  rw [dif_pos (by simpa [UInt32.le_iff_toNat_le] using ⟨h, h'⟩)]
  change (c.val + 32).toNat = c.val.toNat + 32
  have hnat : c.val.toNat ≤ 90 := h'
  rw [UInt32.toNat_add]
  simp only [UInt32.reduceToNat]
  omega

theorem lowerIn_of_ascii {c : Char} (h : c.toNat < 128) (before after : List Char) :
    lowerIn before c after = [c.toLower] := by
  have hdot : c ≠ 'İ' := by
    rintro rfl
    exact absurd h (by decide)
  have hsigma : c ≠ 'Σ' := by
    rintro rfl
    exact absurd h (by decide)
  rw [lowerIn, if_neg hdot, if_neg hsigma]
  by_cases hc : 65 ≤ c.toNat ∧ c.toNat ≤ 90
  · rw [lower_of_capital hc.1 hc.2, ← toNat_toLower hc.1 hc.2, Char.ofNat_toNat]
  · rw [lower_of_ascii h hc, toLower_eq_self hc, Char.ofNat_toNat]

theorem lowerFrom_of_ascii {cs : List Char} (h : ∀ c ∈ cs, c.toNat < 128) :
    ∀ before, lowerFrom before cs = cs.map Char.toLower := by
  induction cs with
  | nil => exact fun _ => rfl
  | cons c cs ih =>
    intro before
    rw [List.forall_mem_cons] at h
    rw [lowerFrom, ih h.2, lowerIn_of_ascii h.1, List.singleton_append, List.map_cons]

theorem lowercase_of_ascii {s : String} (h : ∀ c ∈ s.toList, c.toNat < 128) :
    lowercase s = String.ofList (s.toList.map Char.toLower) := by
  rw [lowercase, lowerFrom_of_ascii h]

theorem lowercase_eq_self {s : String}
    (h : ∀ c ∈ s.toList, c.toNat < 128 ∧ ¬ (65 ≤ c.toNat ∧ c.toNat ≤ 90)) : lowercase s = s := by
  have hmap : s.toList.map Char.toLower = s.toList :=
    (List.map_congr_left fun c hc => toLower_eq_self (h c hc).2).trans (List.map_id _)
  rw [lowercase_of_ascii fun c hc => (h c hc).1, hmap, String.ofList_toList]

end PascalBlock.Unicode
