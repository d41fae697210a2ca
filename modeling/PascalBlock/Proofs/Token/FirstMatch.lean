import PascalBlock.Proofs.Token.Leftmost
import PascalBlock.Proofs.Unicode.Lowercase

/-!
# The first match is the longest

The scan asks the classes in their order and takes the match of the first one that fits. Main
result: that is the longest lexeme of any class that the text begins with, and it is a lexeme of
that class alone; what it becomes follows from the class. Only a number that is too great is not
taken: it ends the scan.
-/

namespace PascalBlock

open Text Splitter LexemeClass

variable {r : Reader} {c d : LexemeClass} {piece rest x y cs : List Char}

namespace LexemeClass

/-! ## The choice among the classes -/

theorem next?_eq_some_iff : next? cs = some (c, piece, rest) ↔
    ∃ before after, all = before ++ c :: after ∧ c.split? cs = some (piece, rest) ∧
      ∀ d ∈ before, d.split? cs = none := by
  simp only [next?, List.findSome?_eq_some_iff, Option.map_eq_some_iff, Option.map_eq_none_iff,
    Prod.mk.injEq]
  constructor
  · rintro ⟨before, _, after, hall, ⟨_, hc, rfl, rfl⟩, hbefore⟩
    exact ⟨before, after, hall, hc, hbefore⟩
  · rintro ⟨before, after, hall, hc, hbefore⟩
    exact ⟨before, c, after, hall, ⟨_, hc, rfl, rfl⟩, hbefore⟩

/-- Where a text begins with a word of some class, a class fits. -/
theorem exists_next? (hd : d ∈ all) (hy : y ∈ d.language) (hp : y <+: cs) :
    ∃ c piece rest, next? cs = some (c, piece, rest) := by
  obtain ⟨x, rest, hx, -⟩ := (takesLongest_split? d).covers hy hp
  cases h : next? cs with
  | some found => exact ⟨found.1, found.2.1, found.2.2, rfl⟩
  | none =>
    have hnone := List.findSome?_eq_none_iff.1 h d hd
    rw [hx] at hnone
    cases hnone

/-- What the first class that fits takes is at least as long as any word of any class: an earlier
class has none here, and no word of a later class goes on where this one ends. -/
theorem length_le_of_next? (h : next? cs = some (c, piece, rest)) (hd : d ∈ all)
    (hy : y ∈ d.language) (hp : y <+: cs) : y.length ≤ piece.length := by
  obtain ⟨before, after, hall, hc, hbefore⟩ := next?_eq_some_iff.1 h
  have hpiece : piece <+: cs := ⟨rest, (takesLongest_split? c).sound _ _ _ hc⟩
  obtain ⟨x, rest', hx, hyx⟩ := (takesLongest_split? d).covers hy hp
  have hapart := pairwise_all
  rw [hall] at hd hapart
  rcases List.mem_append.1 hd with hd | hd
  · rw [hbefore d hd] at hx
    cases hx
  · rcases List.mem_cons.1 hd with rfl | hd
    · obtain ⟨rfl, -⟩ := Prod.mk.inj (Option.some.inj (hc.symm.trans hx))
      exact hyx.length_le
    · have hcd := (List.pairwise_cons.1 (List.pairwise_append.1 hapart).2.1).1 d hd
      rcases List.prefix_or_prefix_of_prefix hpiece hp with hle | hle
      · exact absurd hle (hcd piece ((takesLongest_split? c).mem hc) y hy)
      · exact hle.length_le

/-- Two classes have no word in common. -/
theorem eq_of_mem_language (hc : c ∈ all) (hd : d ∈ all) (hx : x ∈ c.language)
    (hx' : x ∈ d.language) : c = d := by
  by_contra hne
  have hapart : all.Pairwise fun c d => ¬ (x ∈ c.language ∧ x ∈ d.language) :=
    pairwise_all.imp fun h hmem => h x hmem.1 x hmem.2 (List.prefix_refl x)
  have hsymm : Std.Symm fun c d : LexemeClass => ¬ (x ∈ c.language ∧ x ∈ d.language) :=
    ⟨fun _ _ h hmem => h hmem.symm⟩
  exact hapart.forall hc hd hne ⟨hx, hx'⟩

/-! ## What a lexeme becomes -/

/-- The kind of the token that a lexeme becomes; blanks and comments become none. A word counts as
reserved in any case. -/
def kindOf? (piece : List Char) : LexemeClass → Option TokenKind
  | blank | comment => none
  | word =>
    some ((TokenKind.ofReserved? (Unicode.lowercase (String.ofList piece))).getD .identifier)
  | real => some .real
  | integer => some .integer
  | string => some .string
  | symbol _ kind => some kind

/-- The lexeme is a number that is too great. -/
def OutOfRange (piece : List Char) : LexemeClass → Prop
  | real => ∃ d, Decimal.ofChars? piece = some d ∧ (d.toBinary64 false).isFinite = false
  | integer => maxInteger < Decimal.ofDigits piece
  | _ => False

/-! ### Numbers are read -/

theorem digits?_of_mem (hx : x ∈ digitRun.language) :
    Decimal.digits? x = some (Decimal.ofDigits x) := by
  have hall : x.all Char.isDigit = true := List.all_eq_true.2 (isDigit_of_mem_digitRun hx)
  simp [Decimal.digits?, hall, ne_nil_of_mem_digitRun hx]

theorem exponent?_of_mem (hx : x ∈ exponentPart.language) :
    ∃ e, Decimal.exponent? x = some e := by
  obtain ⟨c, v, hc, hv, rfl⟩ := mem_ofClass_mul.1 hx
  obtain ⟨s, hs, w, hw, rfl⟩ := Language.mem_mul.1 hv
  rw [Bool.or_eq_true, beq_iff_eq, beq_iff_eq] at hc
  have hsign : ∃ negative, Decimal.splitSign (s ++ w) = (negative, w) := by
    rcases (Language.mem_add _ _ s).1 hs with ⟨d, hd, rfl⟩ | hs
    · rw [Bool.or_eq_true, beq_iff_eq, beq_iff_eq] at hd
      rcases hd with rfl | rfl <;> exact ⟨_, rfl⟩
    · obtain rfl : s = [] := hs
      exact ⟨_, splitSign_digits (isDigit_of_mem_digitRun hw)⟩
  obtain ⟨negative, hsign⟩ := hsign
  simp [Decimal.exponent?, hc, hsign, digits?_of_mem hw]

/-- Behind the whole part stand a fraction and an exponent that can be read. -/
theorem splitFraction_of_mem (hx : x ∈ realTail.language) : ∃ fraction rest e,
    Decimal.splitFraction x = (fraction, rest) ∧ Decimal.exponent? rest = some e := by
  rcases (Language.mem_add _ _ x).1 hx with hx | hx
  · obtain ⟨_, hu, v, hv, rfl⟩ := Language.mem_mul.1 hx
    rw [language_fractionPart] at hu
    obtain ⟨c, w, hc, hw, rfl⟩ := mem_ofClass_mul.1 hu
    obtain rfl : c = '.' := eq_of_beq hc
    obtain ⟨e, hstops, he⟩ : ∃ e, Stops Char.isDigit v ∧ Decimal.exponent? v = some e := by
      rcases (Language.mem_add _ _ v).1 hv with hv | hv
      · obtain ⟨e, he⟩ := exponent?_of_mem hv
        exact ⟨e, stops_ofClass_mul isDigit_of_letterE v hv, he⟩
      · obtain rfl : v = [] := (Language.mem_one v).1 hv
        exact ⟨0, stops_nil _, rfl⟩
    have hdigits := isDigit_of_mem_digitRun hw
    refine ⟨w, v, e, ?_, he⟩
    rw [List.cons_append, Decimal.splitFraction, takeWhile_append_stops hdigits hstops,
      dropWhile_append_stops hdigits hstops]
  · obtain ⟨e, he⟩ := exponent?_of_mem hx
    obtain ⟨c, w, hc, -, rfl⟩ := mem_ofClass_mul.1 hx
    have hpoint : c ≠ '.' := by
      rintro rfl
      cases hc
    exact ⟨[], c :: w, e, by simp [Decimal.splitFraction, hpoint], he⟩

/-- A real lexeme can be read, though its value need not be finite. -/
theorem ofChars?_of_mem (hx : x ∈ real.language) : ∃ d, Decimal.ofChars? x = some d := by
  obtain ⟨u, hu, v, hv, rfl⟩ := Language.mem_mul.1 hx
  have hstops : Stops Char.isDigit v := by
    obtain ⟨c, w, hc, rfl⟩ := exists_of_mem_realTail hv
    exact stops_cons.2 hc
  obtain ⟨fraction, rest, e, hsplit, he⟩ := splitFraction_of_mem hv
  have hne := ne_nil_of_mem_digitRun hu
  have hdigits := isDigit_of_mem_digitRun hu
  simp [Decimal.ofChars?, takeWhile_append_stops hdigits hstops,
    dropWhile_append_stops hdigits hstops, hsplit, he, hne]

theorem ascii_of_mem_word (hx : x ∈ word.language) : ∀ c ∈ x, c.toNat < 128 := by
  obtain ⟨c, w, hc, hw, rfl⟩ := mem_ofClass_mul.1 hx
  refine List.forall_mem_cons.2 ⟨?_, fun d hd => ?_⟩
  · have hnat := toNat_of_isAlpha hc
    omega
  · have hrest := mem_kstar_ofClass.1 hw d hd
    simp only [isWordRest, Char.isAlphanum, Bool.or_eq_true, beq_iff_eq] at hrest
    rcases hrest with (h | h) | rfl
    · have hnat := toNat_of_isAlpha h
      omega
    · have hnat := toNat_of_isDigit h
      omega
    · decide

theorem wordKind_eq (hx : x ∈ word.language) : wordKind x =
    (TokenKind.ofReserved? (Unicode.lowercase (String.ofList x))).getD .identifier := by
  rw [wordKind, Unicode.lowercase_of_ascii (by simpa using ascii_of_mem_word hx),
    String.toList_ofList]

theorem token?_eq_ok (hpiece : piece ∈ c.language) (h : ¬ c.OutOfRange piece) :
    ∃ literal, c.token? r piece =
      .ok ((c.kindOf? piece).map fun kind => r.token kind piece literal) := by
  cases c with
  | blank | comment => exact ⟨none, rfl⟩
  | word => exact ⟨none, by rw [token?, wordKind_eq hpiece]; rfl⟩
  | real =>
    obtain ⟨d, hd⟩ := ofChars?_of_mem hpiece
    have hfinite : (d.toBinary64 false).isFinite = true := by
      rw [← Bool.not_eq_false]
      exact fun hinfinite => h ⟨d, hd, hinfinite⟩
    have hvalue : realValue? piece = some (d.toBinary64 false) := by
      rw [realValue?, hd, Option.map_some, Option.filter_some, if_pos hfinite]
    exact ⟨some (.real (d.toBinary64 false)), by simp [token?, hvalue, kindOf?]⟩
  | integer =>
    exact ⟨some (.integer (Decimal.ofDigits piece)), by
      simp [token?, Nat.le_of_not_lt h, kindOf?]⟩
  | string => exact ⟨some (.string (stringValue piece)), rfl⟩
  | symbol => exact ⟨none, rfl⟩

theorem token?_eq_error (h : c.OutOfRange piece) :
    c.token? r piece = .error (r.error (.numberParse (String.ofList piece))) := by
  cases c with
  | real =>
    obtain ⟨d, hd, hinfinite⟩ := h
    have hvalue : realValue? piece = none := by
      rw [realValue?, hd, Option.map_some, Option.filter_some, if_neg (by simp [hinfinite])]
    simp [token?, hvalue]
  | integer => simp [token?, Nat.not_le.2 h]
  | _ => exact h.elim

end LexemeClass

/-! ## The step of a scan -/

/-- What the scan finds at `r`: the match of the first class that fits. It is the longest lexeme of
any class, and the class is the only one it belongs to. -/
structure LongestLexeme (r : Reader) (c : LexemeClass) (piece rest : List Char) : Prop where
  mem_all : c ∈ all
  first : next? r.rest = some (c, piece, rest)
  leftmost : c.regex.match? r.rest = some (piece, rest)
  split : piece ++ rest = r.rest
  mem_language : piece ∈ c.language
  unique : ∀ d ∈ all, piece ∈ d.language → d = c
  longest : ∀ d ∈ all, ∀ y ∈ d.language, y <+: r.rest → y.length ≤ piece.length

/-- The scan goes on behind the piece, with the token of its kind, if any. -/
def GoesOn (r : Reader) (c : LexemeClass) (piece rest : List Char) : Prop :=
  ∃ literal, r.Scans ((c.kindOf? piece).map fun kind => r.token kind piece literal).toList
    (r.past piece rest)

theorem longestLexeme_of_next? (h : next? r.rest = some (c, piece, rest)) :
    LongestLexeme r c piece rest := by
  obtain ⟨hmem, hsplit⟩ := next?_eq_some h
  have hpiece := (takesLongest_split? c).mem hsplit
  constructor
  · exact hmem
  · exact h
  · exact (follows_split? c r.rest).trans hsplit
  · exact sound_split? c _ _ _ hsplit
  · exact hpiece
  · exact fun d hd hx => eq_of_mem_language hd hmem hx hpiece
  · exact fun d hd y hy hp => length_le_of_next? h hd hy hp

theorem goesOn_of_next? (h : next? r.rest = some (c, piece, rest)) (hrange : ¬ c.OutOfRange piece) :
    GoesOn r c piece rest := by
  have hpiece := (takesLongest_split? c).mem (next?_eq_some h).2
  obtain ⟨literal, htoken⟩ := token?_eq_ok (r := r) hpiece hrange
  refine ⟨literal, ?_⟩
  cases hkind : c.kindOf? piece with
  | none =>
    rw [hkind] at htoken
    exact Reader.scans_nothing h htoken
  | some kind =>
    rw [hkind] at htoken
    exact Reader.scans_token h htoken

theorem scan_of_outOfRange (h : next? r.rest = some (c, piece, rest)) (hrange : c.OutOfRange piece)
    (before : List Token) :
    r.scan before = .error (r.error (.numberParse (String.ofList piece))) := by
  rw [Reader.scan_eq h, token?_eq_error hrange]

/-- **The first match is the longest match**, at every place of every source where any class has a
lexeme. The scan goes on behind it, but where it is a number that is too great: there the scan ends,
with an error that holds the whole number. -/
theorem first_match_is_longest (r : Reader) (hd : d ∈ all) (hy : y ∈ d.language)
    (hp : y <+: r.rest) : ∃ c piece rest, LongestLexeme r c piece rest ∧
      (¬ c.OutOfRange piece → GoesOn r c piece rest) ∧
      (c.OutOfRange piece → ∀ before,
        r.scan before = .error (r.error (.numberParse (String.ofList piece)))) := by
  obtain ⟨c, piece, rest, h⟩ := exists_next? hd hy hp
  exact ⟨c, piece, rest, longestLexeme_of_next? h, goesOn_of_next? h, scan_of_outOfRange h⟩

/-- A quote that is written twice, and no closing quote behind it: the string ends before it. -/
theorem first_match_unclosed :
    LexemeClass.string ∈ all ∧ ['\'', 'a', '\''] ∈ LexemeClass.string.language ∧
      ['\'', 'a', '\''] <+: (Reader.ofSource "'a''b" "").rest ∧
      LongestLexeme (.ofSource "'a''b" "") .string ['\'', 'a', '\''] ['\'', 'b'] ∧
      GoesOn (.ofSource "'a''b" "") .string ['\'', 'a', '\''] ['\'', 'b'] := by
  have hrest : (Reader.ofSource "'a''b" "").rest = ['\'', 'a', '\'', '\'', 'b'] := by rfl
  have hmem : LexemeClass.string ∈ all := by decide
  have hword : ['\'', 'a', '\''] ∈ LexemeClass.string.language :=
    mem_ofClass_mul.2 ⟨'\'', ['a', '\''], rfl, mem_stringTail.2 (.inr (.inl
      ⟨'a', ['\''], by decide, mem_stringTail.2 (.inl rfl), rfl⟩)), rfl⟩
  have hprefix : ['\'', 'a', '\''] <+: (Reader.ofSource "'a''b" "").rest := by
    rw [hrest]
    exact ⟨['\'', 'b'], rfl⟩
  refine ⟨hmem, hword, hprefix, ?_⟩
  obtain ⟨c, piece, rest, h, hgoes, -⟩ :=
    first_match_is_longest (.ofSource "'a''b" "") hmem hword hprefix
  have hnext : next? (Reader.ofSource "'a''b" "").rest =
      some (.string, ['\'', 'a', '\''], ['\'', 'b']) := by
    rw [hrest]
    decide +kernel
  obtain ⟨rfl, rfl, rfl⟩ : c = .string ∧ piece = ['\'', 'a', '\''] ∧ rest = ['\'', 'b'] := by
    simpa using h.first.symm.trans hnext
  exact ⟨h, hgoes id⟩

/-- One more than the greatest integer: a lexeme, but the scan does not go on behind it. -/
theorem no_step_past_the_greatest :
    LexemeClass.integer ∈ all ∧ "9223372036854775808".toList ∈ LexemeClass.integer.language ∧
      "9223372036854775808".toList <+: (Reader.ofSource "9223372036854775808" "").rest ∧
      ¬ ∃ c piece rest, LongestLexeme (.ofSource "9223372036854775808" "") c piece rest ∧
        GoesOn (.ofSource "9223372036854775808" "") c piece rest := by
  have hnext : next? (Reader.ofSource "9223372036854775808" "").rest =
      some (.integer, "9223372036854775808".toList, []) := by decide +kernel
  refine ⟨by decide, (takesLongest_split? _).mem (next?_eq_some hnext).2, List.prefix_refl _, ?_⟩
  rintro ⟨c, piece, rest, h, literal, hgoes⟩
  obtain ⟨rfl, rfl, rfl⟩ : c = .integer ∧ piece = "9223372036854775808".toList ∧ rest = [] := by
    simpa using h.first.symm.trans hnext
  have hrange : LexemeClass.integer.OutOfRange "9223372036854775808".toList := by
    unfold OutOfRange
    decide +kernel
  have hok := hgoes []
  rw [scan_of_outOfRange hnext hrange, Reader.scan_end rfl] at hok
  cases hok

end PascalBlock
