import PascalBlock.Proofs.Text.Regex
import PascalBlock.Proofs.Token.Lexing

/-!
# The languages of the lexemes

Every class of lexemes as the language of its regular expression. A class takes the longest of its
words off the front of a text (`takesLongest_split?`). The first character of a word tells the
classes apart, but for the numbers and the symbols (`initial_of_mem`); there the order of the
classes settles it, since no word of a class begins a word of a later one (`pairwise_all`).
-/

namespace PascalBlock

namespace LexemeClass

open Text Splitter
open scoped Computability

variable {c d : LexemeClass} {x y : List Char}

/-! ## The regular expressions -/

/-- `[0-9]+` -/
def digitRun : Regex := (Regex.chars Char.isDigit).plus

/-- `[eE][+-]?[0-9]+` -/
def exponentPart : Regex :=
  (Regex.chars fun c => c == 'e' || c == 'E').seq
    ((Regex.chars fun c => c == '+' || c == '-').optional.seq digitRun)

/-- `\.[0-9]+` -/
def fractionPart : Regex := (Regex.chars (· == '.')).seq digitRun

/-- `\.[0-9]+(?:[eE][+-]?[0-9]+)?|[eE][+-]?[0-9]+` -/
def realTail : Regex := (fractionPart.seq exponentPart.optional).alt exponentPart

/-- `(?:[^']|'')*'` -/
def stringTail : Regex :=
  ((Regex.chars (· != '\'')).alt (.literal ['\'', '\''])).star.seq (.chars (· == '\''))

def regex : LexemeClass → Regex
  | blank => (Regex.chars Unicode.isWhiteSpace).plus
  | comment =>
    (Regex.chars (· == '\x7b')).seq ((Regex.chars (· != '\x7d')).star.seq (.chars (· == '\x7d')))
  | word => (Regex.chars isLetter).seq (Regex.chars isWordRest).star
  | real => digitRun.seq realTail
  | integer => digitRun
  | string => (Regex.chars (· == '\'')).seq stringTail
  | symbol spelling _ => .literal spelling.toList

/-- What the regular expression of a class stands for. -/
def language (c : LexemeClass) : Language Char := c.regex.language

theorem language_digitRun :
    digitRun.language = ofClass Char.isDigit * (ofClass Char.isDigit)∗ := rfl

theorem language_fractionPart :
    fractionPart.language = ofClass (· == '.') * digitRun.language := rfl

theorem language_realTail : realTail.language =
    fractionPart.language * (exponentPart.language + 1) + exponentPart.language := rfl

theorem isDigit_of_mem_digitRun (hx : x ∈ digitRun.language) : ∀ c ∈ x, c.isDigit = true := by
  obtain ⟨c, w, hc, hw, rfl⟩ := mem_ofClass_mul.1 hx
  exact List.forall_mem_cons.2 ⟨hc, mem_kstar_ofClass.1 hw⟩

theorem ne_nil_of_mem_digitRun (hx : x ∈ digitRun.language) : x ≠ [] := by
  obtain ⟨c, w, -, -, rfl⟩ := mem_ofClass_mul.1 hx
  exact List.cons_ne_nil c w

/-! ## Each class takes its longest word -/

theorem stops_ofClass_mul {p q : Char → Bool} {l : Language Char}
    (h : ∀ c, q c = true → p c = false) : ∀ w ∈ ofClass q * l, Stops p w := by
  intro w hw
  obtain ⟨c, v, hc, -, rfl⟩ := mem_ofClass_mul.1 hw
  exact stops_cons.2 (h c hc)

theorem takesLongest_digits : TakesLongest digits digitRun.language :=
  (takesLongest_many _).behind_one

/-- Digits in front of what begins with no digit. -/
theorem takesLongest_digits_andThen {b : Splitter} {l : Language Char} (hb : TakesLongest b l)
    (hl : ∀ w ∈ l, Stops Char.isDigit w) :
    TakesLongest (digits.andThen b) (digitRun.language * l) := by
  rw [digits, many1, andThen_assoc, language_digitRun, mul_assoc]
  exact (hb.behind_many hl).behind_one

theorem isDigit_of_letterE (c : Char) (h : (c == 'e' || c == 'E') = true) : c.isDigit = false := by
  rw [Bool.or_eq_true, beq_iff_eq, beq_iff_eq] at h
  rcases h with rfl | rfl <;> rfl

theorem isDigit_of_point (c : Char) (h : (c == '.') = true) : c.isDigit = false := by
  rw [eq_of_beq h]
  rfl

theorem takesLongest_exponent : TakesLongest exponent exponentPart.language := by
  have hsign : ∀ w ∈ digitRun.language, Stops (fun c => c == '+' || c == '-') w :=
    stops_ofClass_mul fun c hc => by
      refine Bool.eq_false_iff.2 fun h => ?_
      rw [Bool.or_eq_true, beq_iff_eq, beq_iff_eq] at h
      rcases h with rfl | rfl <;> cases hc
  exact (takesLongest_digits.behind_optional hsign).behind_one

/-- A point and an exponent begin differently. -/
theorem takesLongest_realTail :
    TakesLongest ((fraction.andThen exponent.optional).orElse exponent) realTail.language := by
  have hexponent : ∀ w ∈ exponentPart.language + 1, Stops Char.isDigit w := by
    intro w hw
    rcases (Language.mem_add _ _ w).1 hw with hw | hw
    · exact stops_ofClass_mul isDigit_of_letterE w hw
    · rw [(Language.mem_one w).1 hw]
      exact stops_nil _
  have hfraction : TakesLongest (fraction.andThen exponent.optional)
      (fractionPart.language * (exponentPart.language + 1)) := by
    rw [fraction, andThen_assoc, language_fractionPart, mul_assoc]
    exact (takesLongest_digits_andThen takesLongest_exponent.optional hexponent).behind_one
  refine hfraction.orElse takesLongest_exponent fun x hx y hy cs hxcs hycs => ?_
  rw [language_fractionPart, mul_assoc] at hx
  obtain ⟨c, v, hc, -, rfl⟩ := mem_ofClass_mul.1 hx
  obtain ⟨d, w, hd, -, rfl⟩ := mem_ofClass_mul.1 hy
  obtain ⟨t, rfl⟩ := hxcs
  obtain ⟨rfl, -⟩ := List.cons_prefix_cons.1 hycs
  rw [eq_of_beq hc] at hd
  cases hd

/-- What makes a number a real begins with no digit. -/
theorem exists_of_mem_realTail (hx : x ∈ realTail.language) :
    ∃ c w, c.isDigit = false ∧ x = c :: w := by
  rw [language_realTail, language_fractionPart, mul_assoc] at hx
  rcases (Language.mem_add _ _ x).1 hx with hx | hx
  · obtain ⟨c, w, hc, -, rfl⟩ := mem_ofClass_mul.1 hx
    exact ⟨c, w, isDigit_of_point c hc, rfl⟩
  · obtain ⟨c, w, hc, -, rfl⟩ := mem_ofClass_mul.1 hx
    exact ⟨c, w, isDigit_of_letterE c hc, rfl⟩

/-! ### Strings -/

theorem language_stringTail : stringTail.language = ofClass (· == '\'') +
    (ofClass (· != '\'') * stringTail.language + {['\'', '\'']} * stringTail.language) := by
  have h : stringTail.language =
      (ofClass (· != '\'') + {['\'', '\'']})∗ * ofClass (· == '\'') := rfl
  conv_lhs => rw [h, ← Language.one_add_self_mul_kstar_eq_kstar]
  rw [add_mul, one_mul, mul_assoc, ← h, add_mul]

/-- A string ends, or it goes on with another character or with a quote that is written twice. -/
theorem mem_stringTail : x ∈ stringTail.language ↔ x = ['\''] ∨
    (∃ c v, c ≠ '\'' ∧ v ∈ stringTail.language ∧ x = c :: v) ∨
    ∃ v ∈ stringTail.language, x = '\'' :: '\'' :: v := by
  have hpair : x ∈ ({['\'', '\'']} : Language Char) * stringTail.language ↔
      ∃ v ∈ stringTail.language, x = '\'' :: '\'' :: v := by
    rw [Language.mem_mul]
    constructor
    · rintro ⟨_, rfl, v, hv, rfl⟩
      exact ⟨v, hv, rfl⟩
    · rintro ⟨v, hv, rfl⟩
      exact ⟨_, rfl, v, hv, rfl⟩
  conv_lhs => rw [language_stringTail]
  rw [Language.mem_add, Language.mem_add, hpair, mem_ofClass_mul, mem_ofClass]
  simp

theorem mem_stringRest {cs rest : List Char} :
    stringRest cs = some (x, rest) → x ∈ stringTail.language := by
  fun_induction stringRest cs generalizing x rest with
  | case1 => exact fun h => by cases h
  | case2 cs y _ hy ih =>
    intro h
    obtain ⟨rfl, -⟩ := Prod.mk.inj (Option.some.inj h)
    exact mem_stringTail.2 (.inr (.inr ⟨y, ih hy, rfl⟩))
  | case3 | case4 =>
    intro h
    obtain ⟨rfl, -⟩ := Prod.mk.inj (Option.some.inj h)
    exact mem_stringTail.2 (.inl rfl)
  | case5 c cs _ hc ih =>
    intro h
    obtain ⟨⟨y, _⟩, hy, h⟩ := Option.map_eq_some_iff.1 h
    obtain ⟨rfl, -⟩ := Prod.mk.inj h
    exact mem_stringTail.2 (.inr (.inl ⟨c, y, hc, ih hy, rfl⟩))

/-- Every string that a text begins with lies within the one that is taken. After a quote that is
written twice the scan goes on, and it comes back to the first of the two only when no string goes
on there. -/
theorem covers_stringRest {cs : List Char} : ∀ {y}, y ∈ stringTail.language → y <+: cs →
    ∃ x rest, stringRest cs = some (x, rest) ∧ y <+: x := by
  fun_induction stringRest cs with
  | case1 =>
    intro y hy hp
    rw [List.prefix_nil.1 hp] at hy
    rcases mem_stringTail.1 hy with h | ⟨_, _, -, -, h⟩ | ⟨_, -, h⟩ <;> cases h
  | case2 cs x rest hx ih =>
    intro y hy hp
    refine ⟨_, _, rfl, ?_⟩
    rcases mem_stringTail.1 hy with rfl | ⟨c, v, hc, -, rfl⟩ | ⟨v, hv, rfl⟩
    · exact List.cons_prefix_cons.2 ⟨rfl, List.nil_prefix⟩
    · exact absurd (List.cons_prefix_cons.1 hp).1 hc
    · rw [List.cons_prefix_cons, List.cons_prefix_cons] at hp
      obtain ⟨x', rest', hx', hvx⟩ := ih hv hp.2.2
      obtain ⟨rfl, -⟩ := Prod.mk.inj (Option.some.inj (hx.symm.trans hx'))
      exact List.cons_prefix_cons.2 ⟨rfl, List.cons_prefix_cons.2 ⟨rfl, hvx⟩⟩
  | case3 cs hx ih =>
    intro y hy hp
    refine ⟨_, _, rfl, ?_⟩
    rcases mem_stringTail.1 hy with rfl | ⟨c, v, hc, -, rfl⟩ | ⟨v, hv, rfl⟩
    · exact List.prefix_refl _
    · exact absurd (List.cons_prefix_cons.1 hp).1 hc
    · rw [List.cons_prefix_cons, List.cons_prefix_cons] at hp
      obtain ⟨x', rest', hx', -⟩ := ih hv hp.2.2
      cases hx.symm.trans hx'
  | case4 cs hsingle =>
    intro y hy hp
    refine ⟨_, _, rfl, ?_⟩
    rcases mem_stringTail.1 hy with rfl | ⟨c, v, hc, -, rfl⟩ | ⟨v, -, rfl⟩
    · exact List.prefix_refl _
    · exact absurd (List.cons_prefix_cons.1 hp).1 hc
    · obtain ⟨t, ht⟩ := (List.cons_prefix_cons.1 hp).2
      exact absurd ht.symm (hsingle _ rfl)
  | case5 c cs _ hc ih =>
    intro y hy hp
    rcases mem_stringTail.1 hy with rfl | ⟨d, v, -, hv, rfl⟩ | ⟨v, -, rfl⟩
    · exact absurd (List.cons_prefix_cons.1 hp).1.symm hc
    · obtain ⟨rfl, hvcs⟩ := List.cons_prefix_cons.1 hp
      obtain ⟨x, rest, hx, hvx⟩ := ih hv hvcs
      exact ⟨_, _, by rw [hx]; rfl, List.cons_prefix_cons.2 ⟨rfl, hvx⟩⟩
    · exact absurd (List.cons_prefix_cons.1 hp).1.symm hc

theorem takesLongest_stringRest : TakesLongest stringRest stringTail.language :=
  ⟨sound_stringRest, mem_stringRest, covers_stringRest⟩

/-! ### All classes -/

/-- What a class takes is the longest of its words that the text begins with. -/
theorem takesLongest_split? : ∀ c : LexemeClass, TakesLongest c.split? c.language
  | blank => (takesLongest_many _).behind_one
  | comment => by
    have hclose : ∀ w ∈ ofClass (· == '\x7d'), Stops (· != '\x7d') w := by
      rintro _ ⟨c, hc, rfl⟩
      exact stops_cons.2 (by rw [eq_of_beq hc]; rfl)
    exact ((takesLongest_one _).behind_many hclose).behind_one
  | word => (takesLongest_many _).behind_one
  | real => by
    refine takesLongest_digits_andThen takesLongest_realTail fun w hw => ?_
    obtain ⟨c, v, hc, rfl⟩ := exists_of_mem_realTail hw
    exact stops_cons.2 hc
  | integer => takesLongest_digits
  | string => takesLongest_stringRest.behind_one
  | symbol spelling _ => takesLongest_exactly spelling.toList

/-! ## Which class a word belongs to -/

/-- What the first character of a lexeme tells. -/
inductive Initial where
  | blank | brace | letter | digit | quote | other
deriving DecidableEq

/-- What a character tells as the first one of a lexeme. -/
def initialOf (c : Char) : Initial :=
  if Unicode.isWhiteSpace c then .blank
  else if c = '\x7b' then .brace
  else if isLetter c then .letter
  else if c.isDigit then .digit
  else if c = '\'' then .quote
  else .other

/-- What the words of a class begin with. -/
def initial : LexemeClass → Initial
  | blank => .blank
  | comment => .brace
  | word => .letter
  | real | integer => .digit
  | string => .quote
  | symbol _ _ => .other

theorem mem_all_symbol {spelling : String} {kind : TokenKind} :
    symbol spelling kind ∈ all ↔ (spelling, kind) ∈ TokenKind.symbols := by
  simp [all]

theorem initialOf_letter {c : Char} (h : isLetter c = true) : initialOf c = .letter := by
  have hnat := toNat_of_isAlpha h
  have hbrace : c ≠ '\x7b' := by
    rintro rfl
    cases h
  rw [initialOf, if_neg (by simp [isWhiteSpace_of_graphic (c := c) (by omega) (by omega)]),
    if_neg hbrace, if_pos h]

theorem initialOf_digit {c : Char} (h : c.isDigit = true) : initialOf c = .digit := by
  have hnat := toNat_of_isDigit h
  have hbrace : c ≠ '\x7b' := by
    rintro rfl
    cases h
  have hletter : isLetter c = false := isAlpha_of_isDigit h
  rw [initialOf, if_neg (by simp [isWhiteSpace_of_graphic (c := c) (by omega) (by omega)]),
    if_neg hbrace, if_neg (by simp [hletter]), if_pos h]

theorem initialOf_symbol : ∀ s ∈ TokenKind.symbols, ∃ c w, s.1.toList = c :: w ∧
    initialOf c = .other := by
  have h : ∀ s ∈ TokenKind.symbols, s.1.toList.head?.map initialOf = some .other := by decide
  intro s hs
  obtain ⟨c, hc, hi⟩ := Option.map_eq_some_iff.1 (h s hs)
  obtain ⟨w, hw⟩ := List.head?_eq_some_iff.1 hc
  exact ⟨c, w, hw, hi⟩

/-- A word is not empty, and its first character tells the class apart from most others. -/
theorem initial_of_mem (hc : c ∈ all) (hx : x ∈ c.language) :
    ∃ h t, x = h :: t ∧ initialOf h = c.initial := by
  cases c with
  | blank =>
    obtain ⟨h, t, hh, -, rfl⟩ := mem_ofClass_mul.1 hx
    exact ⟨h, t, rfl, if_pos hh⟩
  | comment =>
    obtain ⟨h, t, hh, -, rfl⟩ := mem_ofClass_mul.1 hx
    exact ⟨h, t, rfl, by rw [eq_of_beq hh]; rfl⟩
  | word =>
    obtain ⟨h, t, hh, -, rfl⟩ := mem_ofClass_mul.1 hx
    exact ⟨h, t, rfl, initialOf_letter hh⟩
  | real =>
    obtain ⟨_, hu, v, -, rfl⟩ := Language.mem_mul.1 hx
    obtain ⟨h, t, hh, -, rfl⟩ := mem_ofClass_mul.1 hu
    exact ⟨h, t ++ v, rfl, initialOf_digit hh⟩
  | integer =>
    obtain ⟨h, t, hh, -, rfl⟩ := mem_ofClass_mul.1 hx
    exact ⟨h, t, rfl, initialOf_digit hh⟩
  | string =>
    obtain ⟨h, t, hh, -, rfl⟩ := mem_ofClass_mul.1 hx
    exact ⟨h, t, rfl, by rw [eq_of_beq hh]; rfl⟩
  | symbol spelling kind =>
    obtain ⟨h, t, hs, hi⟩ := initialOf_symbol _ (mem_all_symbol.1 hc)
    exact ⟨h, t, (Set.mem_singleton_iff.1 hx).trans hs, hi⟩

/-- Blanks, comments and strings have a first character of their own. -/
theorem eq_of_initial_eq (hd : d ∈ [blank, comment, string]) (h : c.initial = d.initial) :
    c = d := by
  simp only [List.mem_cons, List.not_mem_nil, or_false] at hd
  rcases hd with rfl | rfl | rfl <;> cases c <;> simp_all [initial]

/-- No word of `c` begins a word of `d`. -/
def Apart (c d : LexemeClass) : Prop := ∀ x ∈ c.language, ∀ y ∈ d.language, ¬ x <+: y

theorem apart_of_initial (hc : c ∈ all) (hd : d ∈ all) (h : c.initial ≠ d.initial) :
    Apart c d := by
  intro x hx y hy hp
  obtain ⟨a, v, rfl, ha⟩ := initial_of_mem hc hx
  obtain ⟨b, w, rfl, hb⟩ := initial_of_mem hd hy
  obtain ⟨rfl, -⟩ := List.cons_prefix_cons.1 hp
  exact h (ha.symm.trans hb)

/-- A real has a point or an exponent, which no integer has. -/
theorem apart_real_integer : Apart real integer := by
  intro x hx y hy hp
  obtain ⟨u, -, v, hv, rfl⟩ := Language.mem_mul.1 hx
  obtain ⟨c, w, hc, rfl⟩ := exists_of_mem_realTail hv
  have hmem : c ∈ y := hp.subset (List.mem_append_right u List.mem_cons_self)
  rw [isDigit_of_mem_digitRun hy c hmem] at hc
  cases hc

/-- Symbols are apart where the spelling of the one does not begin that of the other. -/
theorem apart_symbols {s t : String × TokenKind} (h : ¬ s.1.toList <+: t.1.toList) :
    Apart (symbol s.1 s.2) (symbol t.1 t.2) := by
  rintro _ rfl _ rfl hp
  exact h hp

/-- No word of a class begins a word of a later one. -/
theorem pairwise_all : all.Pairwise Apart := by
  have hfirst : ∀ c ∈ [blank, comment, word, real, integer, string], c ∈ all ∧
      c.initial ≠ .other := by decide
  have hsymbol : ∀ d ∈ TokenKind.symbols.map fun s => symbol s.1 s.2, d ∈ all ∧
      d.initial = .other := by decide
  refine List.pairwise_append.2 ⟨?_, ?_, ?_⟩
  · have h : [blank, comment, word, real, integer, string].Pairwise fun c d =>
        c.initial ≠ d.initial ∨ c = real ∧ d = integer := by decide
    refine h.imp_of_mem fun hc hd hcd => ?_
    rcases hcd with hcd | ⟨rfl, rfl⟩
    · exact apart_of_initial (hfirst _ hc).1 (hfirst _ hd).1 hcd
    · exact apart_real_integer
  · have h : TokenKind.symbols.Pairwise fun s t => ¬ s.1.toList <+: t.1.toList := by decide
    exact List.pairwise_map.2 (h.imp apart_symbols)
  · intro c hc d hd
    have hother := (hsymbol d hd).2
    refine apart_of_initial (hfirst c hc).1 (hsymbol d hd).1 fun h => ?_
    exact (hfirst c hc).2 (h.trans hother)

/-! ## The characters of words -/

/-- Letters, digits and the symbols. -/
def IsGraphic (a : Char) : Prop := 33 ≤ a.toNat ∧ a.toNat ≤ 122

theorem isGraphic_of_isDigit {a : Char} (h : a.isDigit = true) : IsGraphic a := by
  have hnat := toNat_of_isDigit h
  exact ⟨by omega, by omega⟩

theorem isGraphic_of_isLetter {a : Char} (h : isLetter a = true) : IsGraphic a := by
  have hnat := toNat_of_isAlpha h
  exact ⟨by omega, by omega⟩

theorem isGraphic_of_isWordRest {a : Char} (h : isWordRest a = true) : IsGraphic a := by
  simp only [isWordRest, Char.isAlphanum, Bool.or_eq_true, beq_iff_eq] at h
  rcases h with (h | h) | rfl
  · exact isGraphic_of_isLetter h
  · exact isGraphic_of_isDigit h
  · exact ⟨by decide, by decide⟩

/-- What holds of every character of the table holds of those of a symbol. -/
theorem of_mem_symbol {spelling : String} {kind : TokenKind} {p : Char → Bool}
    (h : (TokenKind.symbols.all fun s => s.1.toList.all p) = true)
    (hc : symbol spelling kind ∈ all) : ∀ a ∈ spelling.toList, p a = true :=
  List.all_eq_true.1 (List.all_eq_true.1 h _ (mem_all_symbol.1 hc))

theorem within_exponentPart : exponentPart.Within IsGraphic := by
  refine ⟨?_, ⟨?_, trivial⟩, fun a => isGraphic_of_isDigit, fun a => isGraphic_of_isDigit⟩
  all_goals
    intro a ha
    simp only [Bool.or_eq_true, beq_iff_eq] at ha
    rcases ha with rfl | rfl <;> exact ⟨by decide, by decide⟩

theorem within_fractionPart : fractionPart.Within IsGraphic := by
  refine ⟨fun a ha => ?_, fun a => isGraphic_of_isDigit, fun a => isGraphic_of_isDigit⟩
  rw [eq_of_beq ha]
  exact ⟨by decide, by decide⟩

/-- Only blanks, comments and strings can have other characters in them. -/
theorem isGraphic_of_mem (hc : c ∈ all) (hother : c ∉ [blank, comment, string])
    (hx : x ∈ c.language) : ∀ a ∈ x, IsGraphic a := by
  have hdigits : digitRun.Within IsGraphic :=
    ⟨fun a => isGraphic_of_isDigit, fun a => isGraphic_of_isDigit⟩
  refine Regex.Within.of_mem (r := c.regex) ?_ hx
  cases c with
  | blank | comment | string => simp at hother
  | word => exact ⟨fun a => isGraphic_of_isLetter, fun a => isGraphic_of_isWordRest⟩
  | integer => exact hdigits
  | real =>
    exact ⟨hdigits, ⟨within_fractionPart, within_exponentPart, trivial⟩, within_exponentPart⟩
  | symbol spelling kind =>
    have hsymbols : (TokenKind.symbols.all fun s =>
        s.1.toList.all fun a => 33 ≤ a.toNat && a.toNat ≤ 122) = true := by decide +kernel
    intro a ha
    simpa [IsGraphic] using of_mem_symbol hsymbols hc a ha

end LexemeClass

end PascalBlock
