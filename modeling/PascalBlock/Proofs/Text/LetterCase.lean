import Mathlib
import PascalBlock.Proofs.Text.Line
import PascalBlock.Proofs.Text.Regex
import PascalBlock.Proofs.Unicode.Lowercase

/-!
# Large and small letters

Texts that differ in the case of ASCII letters only have as many bytes and as many line feeds. A
regular expression that takes each letter in both forms or in none has such texts both in its
language, or neither (`Regex.Caseless.of_mem`).
-/

namespace PascalBlock.Text

variable {a b : Char} {x x' y y' z : List Char}

/-! ## Characters -/

/-- What is no letter is the small form of nothing else. -/
theorem toLower_eq_iff (hb : b.isAlpha = false) : a.toLower = b ↔ a = b := by
  have hself {c : Char} (hc : c.isAlpha = false) : c.toLower = c := by
    rw [Char.isAlpha, Bool.or_eq_false_iff] at hc
    exact Char.toLower_eq_of_not_isUpper (by simp [hc])
  constructor
  · rintro rfl
    exact (hself (by rwa [← Char.isAlpha_toLower_eq_isAlpha])).symm
  · rintro rfl
    exact hself hb

theorem utf8Size_of_ascii (h : a.toNat < 128) : a.utf8Size = 1 := by
  rw [Char.utf8Size_eq_one_iff, UInt32.le_iff_toNat_le]
  exact Nat.le_of_lt_succ h

theorem utf8Size_toLower (a : Char) : a.toLower.utf8Size = a.utf8Size := by
  by_cases h : 65 ≤ a.toNat ∧ a.toNat ≤ 90
  · have hlower := Unicode.toNat_toLower h.1 h.2
    rw [utf8Size_of_ascii (by omega), utf8Size_of_ascii (by omega)]
  · rw [Unicode.toLower_eq_self h]

/-- The class has each letter in both forms or in none. -/
def Caseless (p : Char → Bool) : Prop := ∀ a, p a.toLower = p a

/-- Only the capitals have to be looked at. -/
theorem caseless_of_capitals {p : Char → Bool}
    (h : ∀ n : Fin 26, p (Char.ofNat (65 + n)).toLower = p (Char.ofNat (65 + n))) : Caseless p := by
  intro a
  by_cases ha : 65 ≤ a.toNat ∧ a.toNat ≤ 90
  · have hn := h ⟨a.toNat - 65, by omega⟩
    rwa [show 65 + (a.toNat - 65) = a.toNat by omega, Char.ofNat_toNat] at hn
  · rw [Unicode.toLower_eq_self ha]

theorem Caseless.eq {p : Char → Bool} (h : Caseless p) (hab : a.toLower = b.toLower) :
    p a = p b := by
  rw [← h a, hab, h b]

theorem Caseless.takeWhile_toLower {p : Char → Bool} (h : Caseless p) (z : List Char) :
    (z.map Char.toLower).takeWhile p = (z.takeWhile p).map Char.toLower := by
  rw [List.takeWhile_map, show p ∘ Char.toLower = p from funext h]

theorem Caseless.dropWhile_toLower {p : Char → Bool} (h : Caseless p) (z : List Char) :
    (z.map Char.toLower).dropWhile p = (z.dropWhile p).map Char.toLower := by
  rw [List.dropWhile_map, show p ∘ Char.toLower = p from funext h]

/-! ## Lower case -/

theorem startsCased_toLower (z : List Char) :
    Unicode.startsCased (z.map Char.toLower) = Unicode.startsCased z := by
  have hignorable : Caseless Unicode.isCaseIgnorable := caseless_of_capitals (by decide +kernel)
  have hcased : Caseless Unicode.isCased := caseless_of_capitals (by decide +kernel)
  rw [Unicode.startsCased, Unicode.startsCased, hignorable.dropWhile_toLower]
  cases z.dropWhile Unicode.isCaseIgnorable with
  | nil => rfl
  | cons a w => exact hcased a

theorem lowerIn_toLower (y : List Char) (a : Char) (z : List Char) :
    Unicode.lowerIn (y.map Char.toLower) a.toLower (z.map Char.toLower) =
      Unicode.lowerIn y a z := by
  by_cases ha : 65 ≤ a.toNat ∧ a.toNat ≤ 90
  · have hlower := Unicode.toNat_toLower ha.1 ha.2
    rw [Unicode.lowerIn_of_ascii (by omega), Unicode.lowerIn_of_ascii (by omega),
      Unicode.toLower_eq_self (c := a.toLower) (by omega)]
  · simp only [Unicode.toLower_eq_self ha, Unicode.lowerIn, startsCased_toLower]

theorem lowerFrom_toLower (y z : List Char) :
    Unicode.lowerFrom (y.map Char.toLower) (z.map Char.toLower) = Unicode.lowerFrom y z := by
  induction z generalizing y with
  | nil => rfl
  | cons a z ih =>
    rw [List.map_cons, Unicode.lowerFrom, Unicode.lowerFrom, lowerIn_toLower, ← ih (a :: y),
      List.map_cons]

/-! ## Texts -/

/-- The text in small letters, as far as they are letters of ASCII. -/
def folded (s : String) : String := String.ofList (s.toList.map Char.toLower)

/-- The texts differ in the case of letters only. -/
def SameLetters (x y : List Char) : Prop := x.map Char.toLower = y.map Char.toLower

instance : DecidableRel SameLetters := fun x y =>
  inferInstanceAs (Decidable (x.map Char.toLower = y.map Char.toLower))

namespace SameLetters

theorem refl (x : List Char) : SameLetters x x := rfl

theorem symm (h : SameLetters x y) : SameLetters y x := Eq.symm h

theorem toLower (x : List Char) : SameLetters (x.map Char.toLower) x := by
  simp [SameLetters]

theorem length_eq (h : SameLetters x y) : x.length = y.length := by
  simpa using congrArg List.length h

theorem append (h : SameLetters x x') (h' : SameLetters y y') :
    SameLetters (x ++ y) (x' ++ y') := by
  rw [SameLetters, List.map_append, List.map_append, h, h']

/-- The parts of the one text are parts of the other. -/
theorem exists_append (h : SameLetters (x ++ y) z) :
    ∃ x' y', z = x' ++ y' ∧ SameLetters x x' ∧ SameLetters y y' := by
  rw [SameLetters, List.map_append] at h
  obtain ⟨x', y', rfl, hx, hy⟩ := List.map_eq_append_iff.1 h.symm
  exact ⟨x', y', rfl, hx.symm, hy.symm⟩

theorem exists_cons (h : SameLetters (a :: x) z) :
    ∃ b y, z = b :: y ∧ b.toLower = a.toLower ∧ SameLetters x y := by
  obtain ⟨b, y, rfl, hb, hy⟩ := List.map_eq_cons_iff.1 h.symm
  exact ⟨b, y, rfl, hb, hy.symm⟩

theorem eq_nil (h : SameLetters [] z) : z = [] := List.map_eq_nil_iff.1 h.symm

/-- Without letters there is no other form. -/
theorem eq (hx : ∀ a ∈ x, a.isAlpha = false) (h : SameLetters x y) : y = x := by
  induction x generalizing y with
  | nil => exact h.eq_nil
  | cons a x ih =>
    rw [List.forall_mem_cons] at hx
    obtain ⟨b, y, rfl, hb, hy⟩ := h.exists_cons
    rw [(toLower_eq_iff hx.1).2 rfl, toLower_eq_iff hx.1] at hb
    rw [hb, ih hx.2 hy]

theorem byteLength_eq (h : SameLetters x y) : byteLength x = byteLength y := by
  have hlower (z : List Char) : byteLength (z.map Char.toLower) = byteLength z := by
    induction z with
    | nil => rfl
    | cons a z ih => rw [List.map_cons, byteLength, byteLength, ih, utf8Size_toLower]
  rw [← hlower x, h, hlower y]

theorem newlines_eq (h : SameLetters x y) : newlines x = newlines y := by
  have hfeed : Caseless (· == '\n') := caseless_of_capitals (by decide)
  have hlower (z : List Char) : newlines (z.map Char.toLower) = newlines z := by
    rw [newlines, newlines, List.count, List.countP_map]
    exact List.countP_congr fun a _ => by simpa using hfeed a
  rw [← hlower x, h, hlower y]

/-- The lower-case form is the same, also where what stands around a capital sigma decides it. -/
theorem lowercase_eq (h : SameLetters x y) :
    Unicode.lowercase (String.ofList x) = Unicode.lowercase (String.ofList y) := by
  have hlower (z : List Char) : Unicode.lowercase (String.ofList (z.map Char.toLower)) =
      Unicode.lowercase (String.ofList z) := by
    rw [Unicode.lowercase, String.toList_ofList, ← List.map_nil (f := Char.toLower),
      lowerFrom_toLower, Unicode.lowercase, String.toList_ofList]
  rw [← hlower x, h, hlower y]

end SameLetters

/-! ## Regular expressions -/

namespace Regex

/-- Every class of the expression has each letter in both forms or in none, and nothing is spelled
with letters. -/
def Caseless : Regex → Prop
  | nothing => True
  | chars p => Text.Caseless p
  | literal spelling => ∀ a ∈ spelling, a.isAlpha = false
  | seq a b | alt a b => a.Caseless ∧ b.Caseless
  | star a => a.Caseless

theorem Caseless.of_mem : ∀ {r : Regex} {x y : List Char}, r.Caseless → x ∈ r.language →
    SameLetters x y → y ∈ r.language
  | nothing, x, y, _, hx, h => by
    obtain rfl := (Language.mem_one x).1 hx
    rw [h.eq_nil]
    exact hx
  | chars p, x, y, hr, hx, h => by
    obtain ⟨a, ha, rfl⟩ := hx
    obtain ⟨b, z, rfl, hb, hz⟩ := h.exists_cons
    obtain rfl := hz.eq_nil
    exact ⟨b, (Text.Caseless.eq hr hb).trans ha, rfl⟩
  | literal spelling, x, y, hr, hx, h => by
    obtain rfl := Set.mem_singleton_iff.1 hx
    rw [h.eq hr]
    exact hx
  | seq a b, x, y, hr, hx, h => by
    obtain ⟨u, hu, v, hv, rfl⟩ := Language.mem_mul.1 hx
    obtain ⟨u', v', rfl, hu', hv'⟩ := h.exists_append
    exact Language.mem_mul.2 ⟨u', hr.1.of_mem hu hu', v', hr.2.of_mem hv hv', rfl⟩
  | alt a b, x, y, hr, hx, h => by
    rcases (Language.mem_add _ _ x).1 hx with hx | hx
    · exact (Language.mem_add _ _ y).2 (.inl (hr.1.of_mem hx h))
    · exact (Language.mem_add _ _ y).2 (.inr (hr.2.of_mem hx h))
  | star a, x, y, hr, hx, h => by
    have ha : a.Caseless := hr
    obtain ⟨pieces, rfl, hpieces⟩ := Language.mem_kstar.1 hx
    clear hx
    induction pieces generalizing y with
    | nil =>
      rw [h.eq_nil]
      exact Language.nil_mem_kstar _
    | cons u us ih =>
      rw [List.forall_mem_cons] at hpieces
      obtain ⟨u', v', rfl, hu, hv⟩ := h.exists_append
      obtain ⟨vs, rfl, hvs⟩ := Language.mem_kstar.1 (ih _ hpieces.2 hv)
      refine Language.mem_kstar.2 ⟨u' :: vs, rfl, List.forall_mem_cons.2 ⟨?_, hvs⟩⟩
      exact ha.of_mem hpieces.1 hu

end Regex

end PascalBlock.Text
