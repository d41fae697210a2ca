import Mathlib.Computability.Language
import PascalBlock.Proofs.Text.Splitter

/-!
# Longest matches

A regular expression stands for a language, and a splitter `TakesLongest` of a language when what it
takes is the longest word of it that the text begins with. A splitter never gives back what it has
taken, so it has this property only where it never has to: behind a run of one class there must come
nothing, or something that begins outside of the class (`TakesLongest.behind_many`).
-/

namespace PascalBlock.Text

open scoped Computability

variable {p : Char → Bool} {a b : Splitter} {l m : Language Char} {cs x y rest : List Char}

/-! ## Words over a class of characters -/

/-- The words of one character of a class. -/
def ofClass (p : Char → Bool) : Language Char := {w | ∃ c, p c = true ∧ w = [c]}

theorem mem_ofClass : x ∈ ofClass p ↔ ∃ c, p c = true ∧ x = [c] := Iff.rfl

theorem mem_ofClass_mul : x ∈ ofClass p * l ↔ ∃ c w, p c = true ∧ w ∈ l ∧ x = c :: w := by
  rw [Language.mem_mul]
  constructor
  · rintro ⟨_, ⟨c, hc, rfl⟩, w, hw, rfl⟩
    exact ⟨c, w, hc, hw, rfl⟩
  · rintro ⟨c, w, hc, hw, rfl⟩
    exact ⟨[c], ⟨c, hc, rfl⟩, w, hw, rfl⟩

/-- The runs of a class. -/
theorem mem_kstar_ofClass : x ∈ (ofClass p)∗ ↔ ∀ c ∈ x, p c = true := by
  induction x with
  | nil => simp [Language.nil_mem_kstar]
  | cons c cs ih =>
    have hnil : c :: cs ∉ (1 : Language Char) := by simp [Language.mem_one]
    rw [← Language.one_add_self_mul_kstar_eq_kstar, Language.mem_add, or_iff_right hnil,
      mem_ofClass_mul, List.forall_mem_cons, ← ih]
    constructor
    · rintro ⟨d, w, hd, hw, h⟩
      obtain ⟨rfl, rfl⟩ := List.cons.inj h
      exact ⟨hd, hw⟩
    · rintro ⟨hc, hcs⟩
      exact ⟨c, cs, hc, hcs, rfl⟩

/-- A run of the class at the front of a text lies within the longest one. -/
theorem prefix_takeWhile (hy : ∀ c ∈ y, p c = true) (h : y <+: cs) : y <+: cs.takeWhile p := by
  obtain ⟨t, rfl⟩ := h
  rw [List.takeWhile_append_of_pos hy]
  exact List.prefix_append ..

/-- What stops the class leaves no choice where the run in front of it ends. -/
theorem eq_takeWhile (hy : ∀ c ∈ y, p c = true) (hx : Stops p x) (hne : x ≠ [])
    (h : y ++ x <+: cs) : y = cs.takeWhile p ∧ x <+: cs.dropWhile p := by
  obtain ⟨t, rfl⟩ := h
  have hstops : Stops p (x ++ t) := by
    obtain ⟨c, w, rfl⟩ := List.exists_cons_of_ne_nil hne
    exact stops_cons.2 (stops_cons.1 hx)
  rw [List.append_assoc, takeWhile_append_stops hy hstops, dropWhile_append_stops hy hstops]
  exact ⟨rfl, List.prefix_append ..⟩

/-! ## Splitters that take the longest word -/

/-- The splitter takes a word of the language, and every word of it that the text begins with lies
within what is taken; so it takes the longest, and refuses only a text that begins with none. -/
structure TakesLongest (a : Splitter) (l : Language Char) : Prop where
  sound : Splitter.Sound a
  mem : ∀ {cs x rest}, a cs = some (x, rest) → x ∈ l
  covers : ∀ {cs y}, y ∈ l → y <+: cs → ∃ x rest, a cs = some (x, rest) ∧ y <+: x

namespace Splitter

theorem andThen_assoc (a b c : Splitter) :
    (a.andThen b).andThen c = a.andThen (b.andThen c) := by
  funext cs
  cases ha : a cs with
  | none => simp [andThen, ha]
  | some found =>
    obtain ⟨x, middle⟩ := found
    cases hb : b middle with
    | none => simp [andThen, ha, hb]
    | some found' =>
      obtain ⟨y, behind⟩ := found'
      cases hc : c behind <;> simp [andThen, ha, hb, hc]

end Splitter

open Splitter

theorem takesLongest_nothing : TakesLongest (fun cs => some ([], cs)) 1 where
  sound := by simp [Splitter.Sound]
  mem := by simp [Language.mem_one]
  covers := by
    intro cs y hy _
    exact ⟨[], cs, rfl, by rw [(Language.mem_one y).1 hy]⟩

theorem takesLongest_exactly (spelling : List Char) :
    TakesLongest (exactly spelling) {spelling} where
  sound := sound_exactly spelling
  mem := by
    intro cs x rest h
    simp only [exactly, Option.map_eq_some_iff, Prod.mk.injEq] at h
    obtain ⟨_, _, rfl, _⟩ := h
    rfl
  covers := by
    intro cs y hy hp
    obtain rfl := Set.mem_singleton_iff.1 hy
    obtain ⟨rest, h⟩ := hp
    refine ⟨y, rest, ?_, List.prefix_refl y⟩
    rw [exactly, List.isPrefixOf?_eq_some_iff_append_eq.2 h, Option.map_some]

namespace TakesLongest

/-- One character of a class leaves no choice. -/
theorem behind_one (h : TakesLongest b l) : TakesLongest ((one p).andThen b) (ofClass p * l) where
  sound := (sound_one p).andThen h.sound
  mem := by
    intro cs z rest hz
    obtain ⟨x, y, middle, hx, hy, rfl⟩ := andThen_eq_some hz
    obtain ⟨c, hc, rfl, rfl⟩ := one_eq_some hx
    exact mem_ofClass_mul.2 ⟨c, y, hc, h.mem hy, rfl⟩
  covers := by
    intro cs y hy hp
    obtain ⟨c, w, hc, hw, rfl⟩ := mem_ofClass_mul.1 hy
    obtain ⟨t, rfl⟩ := hp
    obtain ⟨x, rest, hx, hwx⟩ := h.covers hw (List.prefix_append w t)
    exact ⟨[c] ++ x, rest, andThen_eq (one_cons hc) hx, List.cons_prefix_cons.2 ⟨rfl, hwx⟩⟩

/-- A run of a class leaves no choice to what begins outside of the class. -/
theorem behind_many (h : TakesLongest b l) (hl : ∀ w ∈ l, Stops p w) :
    TakesLongest ((many p).andThen b) ((ofClass p)∗ * l) where
  sound := (sound_many p).andThen h.sound
  mem := by
    intro cs z rest hz
    obtain ⟨x, y, middle, hx, hy, rfl⟩ := andThen_eq_some hz
    obtain ⟨rfl, rfl⟩ := Prod.mk.inj (Option.some.inj hx)
    refine Language.mem_mul.2 ⟨_, ?_, y, h.mem hy, rfl⟩
    exact mem_kstar_ofClass.2 (List.all_eq_true.1 List.all_takeWhile)
  covers := by
    intro cs y hy hp
    obtain ⟨u, hu, v, hv, rfl⟩ := Language.mem_mul.1 hy
    rw [mem_kstar_ofClass] at hu
    by_cases hne : v = []
    · subst hne
      rw [List.append_nil] at hp ⊢
      obtain ⟨x, rest, hx, -⟩ := h.covers hv (List.nil_prefix (l := cs.dropWhile p))
      exact ⟨cs.takeWhile p ++ x, rest, andThen_eq rfl hx,
        (prefix_takeWhile hu hp).trans (List.prefix_append ..)⟩
    · obtain ⟨rfl, hv'⟩ := eq_takeWhile hu (hl v hv) hne hp
      obtain ⟨x, rest, hx, hvx⟩ := h.covers hv hv'
      exact ⟨cs.takeWhile p ++ x, rest, andThen_eq rfl hx, (List.prefix_append_right_inj _).2 hvx⟩

theorem optional (h : TakesLongest a l) : TakesLongest a.optional (l + 1) where
  sound := h.sound.optional
  mem := by
    intro cs x rest hx
    rw [Language.mem_add]
    cases ha : a cs with
    | none =>
      rw [optional_right ha] at hx
      obtain ⟨rfl, -⟩ := Prod.mk.inj (Option.some.inj hx)
      exact .inr rfl
    | some found => exact .inl (h.mem (ha.trans ((optional_left ha).symm.trans hx)))
  covers := by
    intro cs y hy hp
    rcases (Language.mem_add l 1 y).1 hy with hy | hy
    · obtain ⟨x, rest, hx, hyx⟩ := h.covers hy hp
      exact ⟨x, rest, optional_left hx, hyx⟩
    · rw [(Language.mem_one y).1 hy]
      cases ha : a cs with
      | none => exact ⟨[], cs, optional_right ha, List.nil_prefix⟩
      | some found => exact ⟨found.1, found.2, optional_left ha, List.nil_prefix⟩

/-- Of two languages no text may begin with words of both. -/
theorem orElse (ha : TakesLongest a l) (hb : TakesLongest b m)
    (hd : ∀ x ∈ l, ∀ y ∈ m, ∀ cs, x <+: cs → ¬ y <+: cs) : TakesLongest (a.orElse b) (l + m) where
  sound := ha.sound.orElse hb.sound
  mem := by
    intro cs x rest hx
    rw [Language.mem_add]
    cases h : a cs with
    | none => exact .inr (hb.mem ((orElse_right h).symm.trans hx))
    | some found => exact .inl (ha.mem (h.trans ((orElse_left h).symm.trans hx)))
  covers := by
    intro cs y hy hp
    rcases (Language.mem_add l m y).1 hy with hy | hy
    · obtain ⟨x, rest, hx, hyx⟩ := ha.covers hy hp
      exact ⟨x, rest, orElse_left hx, hyx⟩
    · have h : a cs = none := by
        cases h : a cs with
        | none => rfl
        | some found => exact absurd hp (hd _ (ha.mem h) y hy cs ⟨_, ha.sound _ _ _ h⟩)
      rw [orElse_right h]
      exact hb.covers hy hp

end TakesLongest

theorem takesLongest_one (p : Char → Bool) : TakesLongest (one p) (ofClass p) := by
  have h : (one p).andThen (fun cs => some ([], cs)) = one p := by
    funext cs
    cases hp : one p cs <;> simp [andThen, hp]
  simpa [h] using takesLongest_nothing.behind_one (p := p)

/-- A character of a class that may be missing leaves no choice to what begins outside of it. -/
theorem TakesLongest.behind_optional (h : TakesLongest b l) (hl : ∀ w ∈ l, Stops p w) :
    TakesLongest ((one p).optional.andThen b) ((ofClass p + 1) * l) where
  sound := (sound_one p).optional.andThen h.sound
  mem := by
    intro cs z rest hz
    obtain ⟨x, y, middle, hx, hy, rfl⟩ := andThen_eq_some hz
    exact Language.mem_mul.2 ⟨x, (takesLongest_one p).optional.mem hx, y, h.mem hy, rfl⟩
  covers := by
    intro cs y hy hp
    obtain ⟨u, hu, v, hv, rfl⟩ := Language.mem_mul.1 hy
    rcases (Language.mem_add _ _ u).1 hu with ⟨c, hc, rfl⟩ | hu
    · obtain ⟨t, rfl⟩ := hp
      obtain ⟨x, rest, hx, hvx⟩ := h.covers hv (List.prefix_append v t)
      exact ⟨[c] ++ x, rest, andThen_eq (optional_left (one_cons hc)) hx,
        List.cons_prefix_cons.2 ⟨rfl, hvx⟩⟩
    · rw [(Language.mem_one u).1 hu, List.nil_append] at hp ⊢
      cases ho : one p cs with
      | none =>
        obtain ⟨x, rest, hx, hvx⟩ := h.covers hv hp
        exact ⟨[] ++ x, rest, andThen_eq (optional_right ho) hx, hvx⟩
      | some found =>
        -- the text begins inside of the class, so the word is empty
        obtain ⟨c, hc, -, rfl⟩ := one_eq_some ho
        have hnil : v = [] := by
          cases v with
          | nil => rfl
          | cons d w =>
            obtain ⟨rfl, -⟩ := List.cons_prefix_cons.1 hp
            exact absurd hc (by simp [stops_cons.1 (hl _ hv)])
        subst hnil
        obtain ⟨x, rest, hx, -⟩ := h.covers hv (List.nil_prefix (l := found.2))
        exact ⟨found.1 ++ x, rest, andThen_eq (optional_left ho) hx, List.nil_prefix⟩

theorem takesLongest_many (p : Char → Bool) : TakesLongest (many p) (ofClass p)∗ := by
  have h : (many p).andThen (fun cs => some ([], cs)) = many p := by
    funext cs
    simp [andThen, many]
  have hstops : ∀ w ∈ (1 : Language Char), Stops p w := by
    intro w hw
    rw [(Language.mem_one w).1 hw]
    exact stops_nil p
  simpa [h] using takesLongest_nothing.behind_many hstops

end PascalBlock.Text
