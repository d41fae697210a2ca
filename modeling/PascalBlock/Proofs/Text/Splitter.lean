import PascalBlock.Text.Splitter

/-!
# What a splitter takes

A run of characters of one class ends where the class stops. With that, what each combinator takes
off the front of a text is known from the parts of the text.
-/

namespace PascalBlock.Text

variable {p : Char → Bool} {a b : Splitter} {c : Char} {cs xs ys rest : List Char}

/-- No character of the class comes first. -/
def Stops (p : Char → Bool) (cs : List Char) : Prop := ∀ c ∈ cs.head?, p c = false

theorem stops_nil (p : Char → Bool) : Stops p [] := by simp [Stops]

theorem stops_cons : Stops p (c :: cs) ↔ p c = false := by simp [Stops]

/-- A smaller class stops as well. -/
theorem Stops.of_imp {q : Char → Bool} (h : Stops q cs)
    (hpq : ∀ c, p c = true → q c = true) : Stops p cs := by
  intro c hc
  refine Bool.eq_false_iff.2 fun hp => ?_
  have hq := h c hc
  rw [hpq c hp] at hq
  cases hq

theorem stops_dropWhile (p : Char → Bool) (cs : List Char) : Stops p (cs.dropWhile p) := by
  intro c hc
  have hhead := List.head?_dropWhile_not p cs
  rw [Option.mem_def.1 hc] at hhead
  exact hhead

theorem takeWhile_append_stops (hx : ∀ c ∈ xs, p c = true) (hr : Stops p rest) :
    (xs ++ rest).takeWhile p = xs := by
  rw [List.takeWhile_append_of_pos hx]
  cases rest with
  | nil => simp
  | cons c cs => simp [stops_cons.1 hr]

theorem dropWhile_append_stops (hx : ∀ c ∈ xs, p c = true) (hr : Stops p rest) :
    (xs ++ rest).dropWhile p = rest := by
  rw [List.dropWhile_append_of_pos hx]
  cases rest with
  | nil => simp
  | cons c cs => simp [stops_cons.1 hr]

/-- Two texts that are the same begin with the same piece, if both pieces are of one class and end
where the class stops. -/
theorem append_inj_of_stops {r s : List Char} (hx : ∀ c ∈ xs, p c = true)
    (hy : ∀ c ∈ ys, p c = true) (hr : Stops p r) (hs : Stops p s) (h : xs ++ r = ys ++ s) :
    xs = ys ∧ r = s := by
  constructor
  · rw [← takeWhile_append_stops hx hr, h, takeWhile_append_stops hy hs]
  · rw [← dropWhile_append_stops hx hr, h, dropWhile_append_stops hy hs]

namespace Splitter

theorem one_cons (hc : p c = true) : one p (c :: cs) = some ([c], cs) := by simp [one, hc]

theorem one_eq_none (h : Stops p cs) : one p cs = none := by
  cases cs with
  | nil => rfl
  | cons c cs => simp [one, stops_cons.1 h]

theorem many_append (hx : ∀ c ∈ xs, p c = true) (hr : Stops p rest) :
    many p (xs ++ rest) = some (xs, rest) := by
  rw [many, takeWhile_append_stops hx hr, dropWhile_append_stops hx hr]

theorem andThen_eq (ha : a cs = some (xs, ys)) {zs : List Char} (hb : b ys = some (zs, rest)) :
    a.andThen b cs = some (xs ++ zs, rest) := by simp [andThen, ha, hb]

theorem andThen_eq_none (ha : a cs = none) : a.andThen b cs = none := by simp [andThen, ha]

theorem andThen_eq_none_right (ha : a cs = some (xs, ys)) (hb : b ys = none) :
    a.andThen b cs = none := by simp [andThen, ha, hb]

theorem orElse_left (ha : a cs = some (xs, rest)) : a.orElse b cs = some (xs, rest) := by
  simp [Splitter.orElse, ha]

theorem orElse_right (ha : a cs = none) : a.orElse b cs = b cs := by simp [Splitter.orElse, ha]

theorem many1_append (hne : xs ≠ []) (hx : ∀ c ∈ xs, p c = true) (hr : Stops p rest) :
    many1 p (xs ++ rest) = some (xs, rest) := by
  cases xs with
  | nil => exact absurd rfl hne
  | cons c cs =>
    rw [List.forall_mem_cons] at hx
    exact andThen_eq (one_cons hx.1) (many_append hx.2 hr)

theorem many1_eq_none (h : Stops p cs) : many1 p cs = none := andThen_eq_none (one_eq_none h)

theorem optional_left (ha : a cs = some (xs, rest)) : a.optional cs = some (xs, rest) :=
  orElse_left ha

theorem optional_right (ha : a cs = none) : a.optional cs = some ([], cs) := orElse_right ha

end Splitter

end PascalBlock.Text
