import PascalBlock.Proofs.Token.Language

/-!
# The pieces are leftmost-first matches

A backtracking matcher prefers the first way through a regular expression. The classes of lexemes
never go back, but for a string whose last quotes are written twice; each takes the piece that such
a matcher finds for its expression (`follows_split?`).
-/

namespace PascalBlock.LexemeClass

open Text Splitter

variable {b : Regex} {g : Splitter}

theorem follows_digits : Regex.Follows digitRun digits :=
  Regex.Follows.behind_one (Regex.follows_many _)

/-- Digits in front of what does not go on with a digit, or goes on with anything. -/
theorem follows_digits_andThen (hb : Regex.Follows b g)
    (hg : (∀ c cs, c.isDigit = true → g (c :: cs) = none) ∨ ∀ cs, (g cs).isSome) :
    Regex.Follows (digitRun.seq b) (digits.andThen g) := by
  rw [digits, many1, andThen_assoc]
  exact (hb.behind_many hg).behind_one.assoc

/-- What begins with no digit refuses one. -/
theorem one_digit_eq_none {p : Char → Bool} (hp : ∀ c, p c = true → c.isDigit = false) {c : Char}
    (hc : c.isDigit = true) (cs : List Char) : (one p).andThen g (c :: cs) = none := by
  refine andThen_eq_none (one_eq_none (stops_cons.2 (Bool.eq_false_iff.2 fun h => ?_)))
  rw [hp c h] at hc
  cases hc

theorem follows_exponent : Regex.Follows exponentPart exponent := by
  refine (follows_digits.behind_optional fun c cs hc => ?_).behind_one
  rw [Bool.or_eq_true, beq_iff_eq, beq_iff_eq] at hc
  rcases hc with rfl | rfl <;> rfl

theorem follows_realTail :
    Regex.Follows realTail ((fraction.andThen exponent.optional).orElse exponent) := by
  refine Regex.Follows.alt ?_ follows_exponent
  rw [fraction, andThen_assoc]
  refine (follows_digits_andThen follows_exponent.optional (.inr fun cs => ?_)).behind_one.assoc
  cases h : exponent cs with
  | none => rw [optional_right h]; rfl
  | some found => rw [optional_left h]; rfl

/-- A number goes on with a point or the letter of an exponent, and so its digits are never given
back. -/
theorem follows_real : Regex.Follows real.regex real.split? := by
  refine follows_digits_andThen follows_realTail (.inl fun c cs hc => ?_)
  rw [fraction, andThen_assoc, orElse_right (one_digit_eq_none isDigit_of_point hc cs)]
  exact one_digit_eq_none isDigit_of_letterE hc cs

/-! ### Strings -/

theorem follows_closing : Regex.Follows (.chars (· == '\'')) (one (· == '\'')) :=
  Regex.follows_chars _

/-- Inside of a string there is one way on, with a character that is no quote, ... -/
theorem match?_stringTail_cons {c : Char} (hc : c ≠ '\'') (cs : List Char) :
    stringTail.match? (c :: cs) = (stringTail.match? cs).map (Regex.Way.after [c]) := by
  have honce : ((Regex.chars (· != '\'')).alt (.literal ['\'', '\''])).ways ([c] ++ cs) =
      [([c], cs)] := by
    have hquote : ('\'' == c) = false := by simpa using hc.symm
    simp [one, exactly, List.isPrefixOf?, hc, hquote]
  have hnone : (Regex.chars (· == '\'')).match? ([c] ++ cs) = none := by
    rw [follows_closing, List.singleton_append, one_eq_none (stops_cons.2 (by simpa using hc))]
  rw [← List.singleton_append, stringTail, Regex.match?_star_once honce (by simp), hnone,
    Option.or_none]

/-- ... or with a quote that is written twice, unless no string ends behind it. -/
theorem match?_stringTail_pair (cs : List Char) : stringTail.match? ('\'' :: '\'' :: cs) =
    ((stringTail.match? cs).map (Regex.Way.after ['\'', '\''])).or
      (some (['\''], '\'' :: cs)) := by
  have honce : ((Regex.chars (· != '\'')).alt (.literal ['\'', '\''])).ways
      (['\'', '\''] ++ cs) = [(['\'', '\''], cs)] := by
    simp [one, exactly, List.isPrefixOf?]
  exact (Regex.match?_star_once honce (by simp)).trans (congrArg _ (follows_closing _))

/-- Elsewhere the string has to end. -/
theorem match?_stringTail_stops {cs : List Char} (h : Stops (· != '\'') cs)
    (hpair : ∀ rest, cs ≠ '\'' :: '\'' :: rest) :
    stringTail.match? cs = one (· == '\'') cs := by
  have hnone : ((Regex.chars (· != '\'')).alt (.literal ['\'', '\''])).ways cs = [] := by
    have hexactly : exactly ['\'', '\''] cs = none := by
      rw [exactly, Option.map_eq_none_iff, Option.eq_none_iff_forall_not_mem]
      intro rest hrest
      exact hpair rest (isPrefixOf?_append hrest).symm
    rw [Regex.ways_alt, Regex.ways_chars, Regex.ways_literal, one_eq_none h, hexactly]
    rfl
  rw [stringTail, Regex.match?_star_stops hnone, follows_closing]

theorem follows_stringRest : Regex.Follows stringTail stringRest := by
  intro cs
  fun_induction stringRest cs with
  | case1 => exact match?_stringTail_stops (stops_nil _) (by simp)
  | case2 cs x rest hx ih => rw [match?_stringTail_pair, ih, hx]; rfl
  | case3 cs hx ih => rw [match?_stringTail_pair, ih, hx]; rfl
  | case4 cs hsingle =>
    refine match?_stringTail_stops (stops_cons.2 rfl) fun rest h => ?_
    exact hsingle rest rfl (List.cons.inj h).2
  | case5 c cs hsingle hc ih => rw [match?_stringTail_cons hc, ih]; rfl

theorem follows_split? : ∀ c : LexemeClass, Regex.Follows c.regex c.split?
  | blank => Regex.Follows.behind_one (Regex.follows_many _)
  | comment => by
    refine Regex.Follows.behind_one ((Regex.follows_chars _).behind_many (.inl fun c cs hc => ?_))
    exact one_eq_none (stops_cons.2 (by simpa using hc))
  | word => Regex.Follows.behind_one (Regex.follows_many _)
  | real => follows_real
  | integer => follows_digits
  | string => Regex.Follows.behind_one follows_stringRest
  | symbol spelling _ => Regex.follows_literal spelling.toList

end PascalBlock.LexemeClass
