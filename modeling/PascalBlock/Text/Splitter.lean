/-!
# Splitting off the front of a text

A splitter takes a piece off the front of a text, or refuses. The combinators follow the operators
of regular expressions; `many` takes all it can, and nothing is given back later. A piece and what
follows it always make up the text again (`Sound`).
-/

namespace PascalBlock.Text

/-- The piece taken and the text behind it. -/
abbrev Splitter := List Char → Option (List Char × List Char)

namespace Splitter

/-- One character of a class. -/
def one (p : Char → Bool) : Splitter
  | [] => none
  | c :: cs => if p c then some ([c], cs) else none

/-- The characters of a class as far as they go, perhaps none. -/
def many (p : Char → Bool) : Splitter := fun cs => some (cs.takeWhile p, cs.dropWhile p)

/-- A fixed spelling. -/
def exactly (spelling : List Char) : Splitter := fun cs =>
  (spelling.isPrefixOf? cs).map (spelling, ·)

def andThen (a b : Splitter) : Splitter := fun cs =>
  (a cs).bind fun (x, rest) => (b rest).map fun (y, rest') => (x ++ y, rest')

/-- The first splitter, or the second one where the first refuses. -/
def orElse (a b : Splitter) : Splitter := fun cs =>
  match a cs with
  | some r => some r
  | none => b cs

def optional (a : Splitter) : Splitter := a.orElse fun cs => some ([], cs)

/-- One or more characters of a class. -/
def many1 (p : Char → Bool) : Splitter := (one p).andThen (many p)

/-! ## Nothing is lost -/

/-- Nothing is lost between the piece and what follows. -/
def Sound (a : Splitter) : Prop := ∀ cs x rest, a cs = some (x, rest) → x ++ rest = cs

/-- A piece is never empty. -/
def Consumes (a : Splitter) : Prop := ∀ cs x rest, a cs = some (x, rest) → x ≠ []

theorem one_eq_some {p : Char → Bool} {cs x rest : List Char} (h : one p cs = some (x, rest)) :
    ∃ c, p c = true ∧ x = [c] ∧ cs = c :: rest := by
  cases cs with
  | nil => simp [one] at h
  | cons c cs =>
    simp only [one] at h
    split at h
    · next hc =>
      simp only [Option.some.injEq, Prod.mk.injEq] at h
      obtain ⟨rfl, rfl⟩ := h
      exact ⟨c, hc, rfl, rfl⟩
    · simp at h

theorem sound_one (p : Char → Bool) : Sound (one p) := by
  intro cs x rest h
  obtain ⟨c, _, rfl, rfl⟩ := one_eq_some h
  rfl

theorem sound_many (p : Char → Bool) : Sound (many p) := by
  intro cs x rest h
  simp only [many, Option.some.injEq, Prod.mk.injEq] at h
  obtain ⟨rfl, rfl⟩ := h
  exact List.takeWhile_append_dropWhile

theorem isPrefixOf?_append : ∀ {spelling cs rest : List Char},
    spelling.isPrefixOf? cs = some rest → spelling ++ rest = cs
  | [], _, _, h => (Option.some.inj h).symm
  | _ :: _, [], _, h => by cases h
  | s :: spelling, c :: cs, rest, h => by
    change (if s == c then spelling.isPrefixOf? cs else none) = some rest at h
    split at h
    · next hsc => rw [List.cons_append, isPrefixOf?_append h, eq_of_beq hsc]
    · cases h

theorem sound_exactly (spelling : List Char) : Sound (exactly spelling) := by
  intro cs x rest h
  simp only [exactly, Option.map_eq_some_iff, Prod.mk.injEq] at h
  obtain ⟨_, hp, rfl, rfl⟩ := h
  exact isPrefixOf?_append hp

theorem andThen_eq_some {a b : Splitter} {cs z rest : List Char}
    (h : a.andThen b cs = some (z, rest)) :
    ∃ x y middle, a cs = some (x, middle) ∧ b middle = some (y, rest) ∧ z = x ++ y := by
  simp only [andThen, Option.bind_eq_some_iff, Option.map_eq_some_iff, Prod.mk.injEq] at h
  obtain ⟨⟨x, middle⟩, ha, ⟨y, _⟩, hb, rfl, rfl⟩ := h
  exact ⟨x, y, middle, ha, hb, rfl⟩

theorem Sound.andThen {a b : Splitter} (ha : Sound a) (hb : Sound b) : Sound (a.andThen b) := by
  intro cs z rest h
  obtain ⟨x, y, middle, hx, hy, rfl⟩ := andThen_eq_some h
  rw [List.append_assoc, hb _ _ _ hy, ha _ _ _ hx]

theorem Sound.orElse {a b : Splitter} (ha : Sound a) (hb : Sound b) : Sound (a.orElse b) := by
  intro cs z rest h
  simp only [Splitter.orElse] at h
  split at h
  · next hx => exact ha _ _ _ (hx.trans h)
  · exact hb _ _ _ h

theorem Sound.optional {a : Splitter} (ha : Sound a) : Sound a.optional :=
  ha.orElse fun cs x rest h => by simp_all

theorem consumes_one (p : Char → Bool) : Consumes (one p) := by
  intro cs x rest h
  obtain ⟨c, _, rfl, _⟩ := one_eq_some h
  simp

theorem Consumes.andThen {a : Splitter} (ha : Consumes a) (b : Splitter) :
    Consumes (a.andThen b) := by
  intro cs z rest h
  obtain ⟨x, y, middle, hx, _, rfl⟩ := andThen_eq_some h
  simp [ha _ _ _ hx]

/-- A splitter that loses nothing and always takes something leaves less behind. -/
theorem length_lt {a : Splitter} (hs : Sound a) (hc : Consumes a) {cs x rest : List Char}
    (h : a cs = some (x, rest)) : rest.length < cs.length := by
  have hx := List.length_pos_iff.2 (hc _ _ _ h)
  rw [← hs _ _ _ h, List.length_append]
  omega

end Splitter

end PascalBlock.Text
