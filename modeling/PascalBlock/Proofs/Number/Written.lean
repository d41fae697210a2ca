import PascalBlock.Number.Written
import PascalBlock.Proofs.Number.Shortest
import PascalBlock.Proofs.Text.Splitter

/-!
# Reals are read as they are written

The writing of a magnitude is a literal: digits, a point with digits behind it, an exponent, of
which one of the last two may lack. A literal is read as its value (`RealLiteral.read`), and the
literal that is written for a magnitude has the rank of the magnitude (`magnitudeText_eq`).
-/

namespace PascalBlock

open Text

/-! ## Digits -/

/-- All characters are decimal digits. -/
def AllDigits (cs : List Char) : Prop := ∀ c ∈ cs, c.isDigit = true

theorem allDigits_toDigits (n : Nat) : AllDigits (Nat.toDigits 10 n) :=
  fun _ hc => Nat.isDigit_of_mem_toDigits (by decide) (by decide) hc

/-- Digits are on one line. -/
theorem AllDigits.notMem_feed {cs : List Char} (h : AllDigits cs) : '\n' ∉ cs := fun hfeed =>
  absurd (h '\n' hfeed) (by decide)

theorem allDigits_append {xs ys : List Char} : AllDigits (xs ++ ys) ↔ AllDigits xs ∧ AllDigits ys :=
  List.forall_mem_append

theorem allDigits_zeros (n : Nat) : AllDigits (List.replicate n '0') :=
  fun _ hc => by rw [List.eq_of_mem_replicate hc]; decide

theorem allDigits_take {cs : List Char} (h : AllDigits cs) (n : Nat) : AllDigits (cs.take n) :=
  fun c hc => h c (List.mem_of_mem_take hc)

theorem allDigits_drop {cs : List Char} (h : AllDigits cs) (n : Nat) : AllDigits (cs.drop n) :=
  fun c hc => h c (List.mem_of_mem_drop hc)

theorem ofDigits_toDigits (n : Nat) : Decimal.ofDigits (Nat.toDigits 10 n) = n :=
  Nat.ofDigitChars_ten_toDigits

theorem ofDigits_append_zeros (cs : List Char) (n : Nat) :
    Decimal.ofDigits (cs ++ List.replicate n '0') = Decimal.ofDigits cs * 10 ^ n := by
  rw [Decimal.ofDigits, Nat.ofDigitChars_append, Nat.ofDigitChars_replicate_zero, Nat.mul_comm]
  rfl

theorem ofDigits_zeros_append (n : Nat) (cs : List Char) :
    Decimal.ofDigits (List.replicate n '0' ++ cs) = Decimal.ofDigits cs := by
  rw [Decimal.ofDigits, Nat.ofDigitChars_append, Nat.ofDigitChars_replicate_zero, Nat.mul_zero]
  rfl

/-- What `significant` leaves are the digits of the number without its factors of ten. -/
theorem exists_significant : ∀ n : Nat, 0 < n →
    ∃ m k, 0 < m ∧ n = m * 10 ^ k ∧ significant n = Nat.toDigits 10 m := by
  intro n
  induction n using Nat.strongRecOn with
  | ind n ih =>
    intro hn
    by_cases hzero : n % 10 = 0
    · have hpos : 0 < n / 10 := by omega
      have hn10 : n = n / 10 * 10 ^ 1 := by omega
      obtain ⟨m, k, hm, hk, hs⟩ := ih (n / 10) (by omega) hpos
      have hsame : significant n = significant (n / 10) := by
        rw [hn10, significant, Decimal.toDigits_mul_pow hpos, Nat.pow_one,
          Nat.mul_div_cancel _ (by decide)]
        simp [significant]
      refine ⟨m, k + 1, hm, ?_, hsame.trans hs⟩
      rw [Nat.pow_succ, ← Nat.mul_assoc, ← hk]
      omega
    · refine ⟨n, 0, hn, by simp, ?_⟩
      -- the last digit is no zero
      have hdigits : ∃ cs, Nat.toDigits 10 n = cs ++ [(n % 10).digitChar] := by
        by_cases hlt : n < 10
        · exact ⟨[], by rw [Nat.toDigits_of_lt_base hlt, Nat.mod_eq_of_lt hlt]; rfl⟩
        · exact ⟨_, Nat.toDigits_of_base_le (by decide) (by omega)⟩
      obtain ⟨cs, hcs⟩ := hdigits
      rw [significant, hcs]
      simp [hzero]

/-! ## Literals of reals -/

/-- A real in writing: digits, digits behind a point, and an exponent. A point or an exponent shows
that it is a real. -/
structure RealLiteral where
  whole : List Char
  fraction : List Char
  exponent : Option Int
  whole_ne : whole ≠ []
  whole_digits : AllDigits whole
  fraction_digits : AllDigits fraction
  shows : fraction ≠ [] ∨ exponent.isSome

namespace RealLiteral

/-- A point with digits behind it, if there are any. -/
def fractionChars (l : RealLiteral) : List Char :=
  if l.fraction.isEmpty then [] else '.' :: l.fraction

def exponentChars (l : RealLiteral) : List Char :=
  match l.exponent with
  | none => []
  | some e => 'e' :: (toString e).toList

def chars (l : RealLiteral) : List Char := l.whole ++ l.fractionChars ++ l.exponentChars

def value (l : RealLiteral) : Decimal :=
  ⟨Decimal.ofDigits (l.whole ++ l.fraction), l.exponent.getD 0 - l.fraction.length⟩

end RealLiteral

/-! ## Reading -/

theorem toList_toString_int (n : Int) :
    (toString n).toList =
      if n < 0 then '-' :: Nat.toDigits 10 n.natAbs else Nat.toDigits 10 n.natAbs := by
  cases n with
  | ofNat m =>
    have hm : ¬ Int.ofNat m < 0 := Int.not_lt.2 (Int.natCast_nonneg m)
    rw [if_neg hm]
    change (toString m).toList = _
    rw [Nat.toString_eq_repr, Nat.toList_repr]
    rfl
  | negSucc m =>
    rw [if_pos (Int.negSucc_lt_zero m)]
    change ("-" ++ toString (m + 1)).toList = _
    rw [String.toList_append, Nat.toString_eq_repr, Nat.toList_repr]
    rfl

theorem digits?_toDigits (n : Nat) : Decimal.digits? (Nat.toDigits 10 n) = some n := by
  have hne : Nat.toDigits 10 n ≠ [] := Nat.toDigits_ne_nil
  have hall : (Nat.toDigits 10 n).all Char.isDigit = true := by
    simpa [AllDigits] using allDigits_toDigits n
  simp [Decimal.digits?, hne, hall, ofDigits_toDigits]

/-- Digits have no sign in front. -/
theorem splitSign_digits {cs : List Char} (h : AllDigits cs) :
    Decimal.splitSign cs = (false, cs) := by
  unfold Decimal.splitSign
  split
  · exact absurd (h '-' (by simp)) (by decide)
  · exact absurd (h '+' (by simp)) (by decide)
  · rfl

namespace RealLiteral

variable (l : RealLiteral)

theorem read_exponent : Decimal.exponent? l.exponentChars = some (l.exponent.getD 0) := by
  unfold exponentChars
  split
  · next h => simp [h, Decimal.exponent?]
  · next e h =>
    rw [h, Option.getD_some, toList_toString_int]
    by_cases he : e < 0
    · have hneg : -(e.natAbs : Int) = e := by omega
      simp only [if_pos he, Decimal.exponent?, true_or, if_true, Decimal.splitSign,
        digits?_toDigits]
      exact congrArg some hneg
    · have hpos : (e.natAbs : Int) = e := by omega
      simp only [if_neg he, Decimal.exponent?, true_or, if_true,
        splitSign_digits (allDigits_toDigits _), digits?_toDigits, if_false, Bool.false_eq_true]
      exact congrArg some hpos

/-- The digits of an exponent begin behind its letter. -/
theorem stops_exponentChars : Stops Char.isDigit l.exponentChars := by
  unfold exponentChars
  split
  · exact stops_nil _
  · exact stops_cons.2 (by decide)

theorem stops_fractionChars : Stops Char.isDigit (l.fractionChars ++ l.exponentChars) := by
  unfold fractionChars
  split
  · exact l.stops_exponentChars
  · exact stops_cons.2 (by decide)

theorem splitFraction_chars :
    Decimal.splitFraction (l.fractionChars ++ l.exponentChars) = (l.fraction, l.exponentChars) := by
  unfold fractionChars
  split
  · next h =>
    rw [List.isEmpty_iff.1 h, List.nil_append]
    unfold exponentChars
    split <;> rfl
  · rw [List.cons_append, Decimal.splitFraction,
      takeWhile_append_stops l.fraction_digits l.stops_exponentChars,
      dropWhile_append_stops l.fraction_digits l.stops_exponentChars]

/-- **A literal is read as its value**. -/
theorem read : Decimal.ofChars? l.chars = some l.value := by
  have hwhole : l.chars.takeWhile Char.isDigit = l.whole := by
    rw [chars, List.append_assoc, takeWhile_append_stops l.whole_digits l.stops_fractionChars]
  have hrest : l.chars.dropWhile Char.isDigit = l.fractionChars ++ l.exponentChars := by
    rw [chars, List.append_assoc, dropWhile_append_stops l.whole_digits l.stops_fractionChars]
  have hne : l.whole.isEmpty = false := by simpa using l.whole_ne
  simp [Decimal.ofChars?, hwhole, hrest, l.splitFraction_chars, hne, l.read_exponent, value]

end RealLiteral

/-! ## Writing -/

/-- The point stands in front of all digits. -/
theorem positional_front (m : Nat) {point : Int} (hp : point ≤ 0) :
    ∃ l : RealLiteral, positional (Nat.toDigits 10 m) point = l.chars ∧
      l.value = ⟨m, point - Decimal.digitCount m⟩ := by
  have hne : Nat.toDigits 10 m ≠ [] := Nat.toDigits_ne_nil
  refine ⟨⟨['0'], List.replicate (-point).toNat '0' ++ Nat.toDigits 10 m, none, by simp,
    by simp [AllDigits], allDigits_append.2 ⟨allDigits_zeros _, allDigits_toDigits m⟩,
    .inl (by simp [hne])⟩, ?_, ?_⟩
  · simp [positional, hp, hne, RealLiteral.chars, RealLiteral.fractionChars,
      RealLiteral.exponentChars]
  · have hdigits : Decimal.ofDigits (['0'] ++ (List.replicate (-point).toNat '0' ++
        Nat.toDigits 10 m)) = m := by
      rw [← List.append_assoc, List.singleton_append, ← List.replicate_succ, ofDigits_zeros_append,
        ofDigits_toDigits]
    simp only [RealLiteral.value, hdigits, Option.getD_none, List.length_append,
      List.length_replicate, Decimal.digitCount, Decimal.mk.injEq, true_and]
    omega

/-- The point stands among the digits. -/
theorem positional_among (m : Nat) {point : Int} (hp : 0 < point)
    (hlt : point < Decimal.digitCount m) :
    ∃ l : RealLiteral, positional (Nat.toDigits 10 m) point = l.chars ∧
      l.value = ⟨m, point - Decimal.digitCount m⟩ := by
  have hlength : (Nat.toDigits 10 m).length = Decimal.digitCount m := rfl
  have htake : ((Nat.toDigits 10 m).take point.toNat).length = point.toNat := by
    rw [List.length_take, hlength]
    omega
  have hdrop : ((Nat.toDigits 10 m).drop point.toNat).length =
      Decimal.digitCount m - point.toNat := by
    rw [List.length_drop, hlength]
  have hdrop_ne : (Nat.toDigits 10 m).drop point.toNat ≠ [] :=
    List.length_pos_iff.1 (by omega)
  refine ⟨⟨(Nat.toDigits 10 m).take point.toNat, (Nat.toDigits 10 m).drop point.toNat, none,
    List.length_pos_iff.1 (by omega), allDigits_take (allDigits_toDigits m) _,
    allDigits_drop (allDigits_toDigits m) _, .inl hdrop_ne⟩, ?_, ?_⟩
  · simp only [positional, if_neg (Int.not_le.2 hp), htake, Nat.sub_self, List.replicate_zero,
      RealLiteral.chars, RealLiteral.fractionChars, RealLiteral.exponentChars,
      List.isEmpty_eq_false_iff.2 hdrop_ne]
    simp
  · simp only [RealLiteral.value, List.take_append_drop, ofDigits_toDigits, hdrop,
      Option.getD_none, Decimal.mk.injEq, true_and]
    omega

/-- The point stands behind all digits, and perhaps zeros in between. -/
theorem positional_behind {m : Nat} (hm : 0 < m) {point : Int} (hp : 0 < point)
    (hge : (Decimal.digitCount m : Int) ≤ point) :
    ∃ l : RealLiteral, positional (Nat.toDigits 10 m) point = l.chars ∧
      l.value.rank = Decimal.rank ⟨m, point - Decimal.digitCount m⟩ := by
  have hne : Nat.toDigits 10 m ≠ [] := Nat.toDigits_ne_nil
  have hlength : (Nat.toDigits 10 m).length = Decimal.digitCount m := rfl
  have htake : (Nat.toDigits 10 m).take point.toNat = Nat.toDigits 10 m :=
    List.take_of_length_le (by omega)
  have hdrop : (Nat.toDigits 10 m).drop point.toNat = [] := List.drop_of_length_le (by omega)
  have hzero : AllDigits ['0'] := allDigits_zeros 1
  refine ⟨⟨Nat.toDigits 10 m ++ List.replicate (point.toNat - Decimal.digitCount m) '0', ['0'],
    none, by simp [hne], allDigits_append.2 ⟨allDigits_toDigits m, allDigits_zeros _⟩, hzero,
    .inl (by simp)⟩, ?_, ?_⟩
  · simp only [positional, if_neg (Int.not_le.2 hp), htake, hdrop, hlength, RealLiteral.chars,
      RealLiteral.fractionChars, RealLiteral.exponentChars]
    simp
  · have hdigits : Decimal.ofDigits (Nat.toDigits 10 m ++
        List.replicate (point.toNat - Decimal.digitCount m) '0' ++ ['0']) =
          m * 10 ^ (point.toNat - Decimal.digitCount m + 1) := by
      rw [List.append_assoc, ← List.replicate_succ', ofDigits_append_zeros, ofDigits_toDigits]
    have hexponent : (0 - (1 : Nat) : Int) + (point.toNat - Decimal.digitCount m + 1 : Nat) =
        point - Decimal.digitCount m := by omega
    simp only [RealLiteral.value, hdigits, Option.getD_none, List.length_singleton]
    rw [Decimal.rank_mul_pow hm, hexponent]

/-- The digits of a number with a point that stays in place. -/
theorem positional_eq {m : Nat} (hm : 0 < m) (point : Int) :
    ∃ l : RealLiteral, positional (Nat.toDigits 10 m) point = l.chars ∧
      l.value.rank = Decimal.rank ⟨m, point - Decimal.digitCount m⟩ := by
  by_cases hp : point ≤ 0
  · obtain ⟨l, hl, hv⟩ := positional_front m hp
    exact ⟨l, hl, by rw [hv]⟩
  · by_cases hlt : point < Decimal.digitCount m
    · obtain ⟨l, hl, hv⟩ := positional_among m (by omega) hlt
      exact ⟨l, hl, by rw [hv]⟩
    · exact positional_behind hm (by omega) (by omega)

/-- One digit with a point behind it, and an exponent. -/
theorem scientific_eq (m : Nat) (point : Int) :
    ∃ l : RealLiteral, scientific (Nat.toDigits 10 m) point = l.chars ∧
      l.value = ⟨m, point - Decimal.digitCount m⟩ := by
  have hne : Nat.toDigits 10 m ≠ [] := Nat.toDigits_ne_nil
  refine ⟨⟨(Nat.toDigits 10 m).take 1, (Nat.toDigits 10 m).drop 1, some (point - 1), ?_,
    allDigits_take (allDigits_toDigits m) 1, allDigits_drop (allDigits_toDigits m) 1, .inr rfl⟩,
    ?_, ?_⟩
  · simp [hne]
  · simp [scientific, RealLiteral.chars, RealLiteral.fractionChars, RealLiteral.exponentChars]
  · have hlength : 0 < (Nat.toDigits 10 m).length := List.length_pos_iff.2 hne
    simp only [RealLiteral.value, List.take_append_drop, ofDigits_toDigits, Option.getD_some,
      List.length_drop, Decimal.digitCount, Decimal.mk.injEq, true_and]
    omega

/-- A positive decimal is written as a literal of its rank. -/
theorem written_eq {d : Decimal} (h : 0 < d.coefficient) :
    ∃ l : RealLiteral, d.written = l.chars ∧ l.value.rank = d.rank := by
  obtain ⟨c, e⟩ := d
  obtain ⟨m, k, hm, rfl, hs⟩ := exists_significant c h
  have hpoint : Decimal.point ⟨m * 10 ^ k, e⟩ - Decimal.digitCount m = e + k := by
    simp only [Decimal.point, Decimal.digitCount_mul_pow hm]
    omega
  have hrank : Decimal.rank ⟨m * 10 ^ k, e⟩ =
      Decimal.rank ⟨m, Decimal.point ⟨m * 10 ^ k, e⟩ - Decimal.digitCount m⟩ := by
    rw [hpoint, Decimal.rank_mul_pow hm]
  unfold Decimal.written
  rw [hs, hrank]
  split
  · exact positional_eq hm _
  · obtain ⟨l, hl, hv⟩ := scientific_eq m (Decimal.point ⟨m * 10 ^ k, e⟩)
    exact ⟨l, hl, by rw [hv]⟩

namespace Binary64

/-- **A magnitude is written as a literal that reads back** to it. -/
theorem magnitudeText_eq {r : Nat} (h : r < rankCount) :
    ∃ l : RealLiteral, magnitudeText r = l.chars ∧ l.value.rank = r := by
  unfold magnitudeText
  split
  · next h0 =>
    refine ⟨⟨['0'], ['0'], none, by simp, by simp [AllDigits], by simp [AllDigits], by simp⟩,
      rfl, ?_⟩
    rw [h0]
    rfl
  · next h0 =>
    have hrank := Shortest.shortest_rank (Nat.pos_of_ne_zero h0) h
    obtain ⟨l, hl, hv⟩ := written_eq (d := Shortest.shortest r)
      (Decimal.coefficient_pos (by omega))
    exact ⟨l, hl, hv.trans hrank⟩

end Binary64

end PascalBlock
