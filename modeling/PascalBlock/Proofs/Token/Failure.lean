import PascalBlock.Proofs.Token.Lexical
import PascalBlock.Proofs.Token.Walk

/-!
# Where a scan fails

There are two reasons for a scan to fail: a character at which no lexeme begins, and a number that
is too great. No lexeme begins at a character that none begins with, and at a brace or a quote that
is never closed (`next?_eq_none_iff`). Main result: the error stands in front of the reason, and the
source up to there has tokens; where no such place comes, all numbers are read.
-/

namespace PascalBlock

open Text LexemeClass Reader
open scoped Computability

variable {r : Reader} {c : LexemeClass} {t : Token} {x : Char} {piece behind u y : List Char}
  {e : Error} {source file : String}

/-! ## Where no lexeme begins -/

/-- Why no lexeme begins with `x` in front of `behind`. -/
inductive Unrecognised (x : Char) (behind : List Char) : Prop
  | beginsNone (h : ∀ c ∈ all, ∀ y ∈ c.language, y.head? ≠ some x)
  | openComment (h : x = '\x7b') (hclose : '\x7d' ∉ behind)
  | openString (h : x = '\'') (hclose : '\'' ∉ behind)

namespace LexemeClass

theorem mem_comment_of_notMem (h : '\x7d' ∉ u) : '\x7b' :: (u ++ ['\x7d']) ∈ comment.language := by
  refine mem_ofClass_mul.2 ⟨'\x7b', _, rfl, Language.mem_mul.2 ?_, rfl⟩
  refine ⟨u, mem_kstar_ofClass.2 fun a ha => ?_, _, ⟨'\x7d', rfl, rfl⟩, rfl⟩
  rw [bne_iff_ne]
  exact ne_of_mem_of_not_mem ha h

theorem mem_string_of_notMem (h : '\'' ∉ u) :
    '\'' :: (u ++ ['\'']) ∈ LexemeClass.string.language := by
  refine mem_ofClass_mul.2 ⟨'\'', _, rfl, ?_, rfl⟩
  induction u with
  | nil => exact mem_stringTail.2 (.inl rfl)
  | cons a u ih =>
    rw [List.mem_cons, not_or] at h
    exact mem_stringTail.2 (.inr (.inl ⟨a, _, Ne.symm h.1, ih h.2, rfl⟩))

/-- What closes a comment or a string is in it. -/
theorem close_mem_comment (hy : y ∈ comment.language) : '\x7d' ∈ y.tail := by
  obtain ⟨a, w, -, hw, rfl⟩ := mem_ofClass_mul.1 hy
  obtain ⟨u, -, _, ⟨b, hb, rfl⟩, rfl⟩ := Language.mem_mul.1 hw
  simp [eq_of_beq hb]

theorem close_mem_string (hy : y ∈ LexemeClass.string.language) : '\'' ∈ y.tail := by
  obtain ⟨a, w, -, hw, rfl⟩ := mem_ofClass_mul.1 hy
  obtain ⟨u, -, _, ⟨b, hb, rfl⟩, rfl⟩ := Language.mem_mul.1 hw
  simp [eq_of_beq hb]

/-- But for comments and strings, the first character of a lexeme is a lexeme. -/
theorem singleton_mem (hc : c ∈ all) (hother : c ∉ [comment, string])
    (hy : x :: y ∈ c.language) : ∃ d ∈ all, [x] ∈ d.language := by
  have hnumber (hx : x.isDigit = true) : ∃ d ∈ all, [x] ∈ d.language :=
    ⟨integer, by decide, mem_ofClass_mul.2 ⟨x, [], hx, Language.nil_mem_kstar _, rfl⟩⟩
  cases c with
  | comment | string => simp at hother
  | blank | word =>
    obtain ⟨a, w, ha, -, h⟩ := mem_ofClass_mul.1 hy
    obtain ⟨rfl, rfl⟩ := List.cons.inj h
    exact ⟨_, hc, mem_ofClass_mul.2 ⟨x, [], ha, Language.nil_mem_kstar _, rfl⟩⟩
  | integer =>
    exact hnumber (isDigit_of_mem_digitRun hy x List.mem_cons_self)
  | real =>
    obtain ⟨v, hv, w, -, h⟩ := Language.mem_mul.1 hy
    obtain ⟨a, v, ha, -, rfl⟩ := mem_ofClass_mul.1 hv
    obtain ⟨rfl, -⟩ := List.cons.inj h
    exact hnumber ha
  | symbol spelling kind =>
    have hsymbols : ∀ s ∈ TokenKind.symbols, ∃ s' ∈ TokenKind.symbols,
        s'.1.toList = s.1.toList.take 1 := by decide
    obtain ⟨s', hs', hfirst⟩ := hsymbols _ (mem_all_symbol.1 hc)
    have hspelling : x :: y = spelling.toList := hy
    refine ⟨symbol s'.1 s'.2, mem_all_symbol.2 hs', ?_⟩
    change [x] = s'.1.toList
    rw [hfirst, ← hspelling]
    rfl

/-- A comment or a string begins where it is closed. -/
theorem begins_of_close (h : x = '\x7b' ∧ '\x7d' ∈ behind ∨ x = '\'' ∧ '\'' ∈ behind) :
    ∃ c ∈ all, ∃ y ∈ c.language, y <+: x :: behind := by
  rcases h with ⟨rfl, h⟩ | ⟨rfl, h⟩
  · obtain ⟨u, v, rfl, hu⟩ := List.eq_append_cons_of_mem h
    exact ⟨comment, by decide, _, mem_comment_of_notMem hu, by simp⟩
  · obtain ⟨u, v, rfl, hu⟩ := List.eq_append_cons_of_mem h
    exact ⟨string, by decide, _, mem_string_of_notMem hu, by simp⟩

theorem next?_eq_none_iff : next? (x :: behind) = none ↔ Unrecognised x behind := by
  constructor
  · intro h
    have hnone : ¬ ∃ c ∈ all, ∃ y ∈ c.language, y <+: x :: behind := by
      rintro ⟨c, hc, y, hy, hp⟩
      obtain ⟨d, piece, rest, h'⟩ := exists_next? hc hy hp
      cases h.symm.trans h'
    by_cases hbegins : ∃ c ∈ all, ∃ y, x :: y ∈ c.language
    · obtain ⟨c, hc, y, hy⟩ := hbegins
      obtain ⟨a, w, h, ha⟩ := initial_of_mem hc hy
      obtain ⟨rfl, -⟩ := List.cons.inj h
      cases c with
      | comment =>
        obtain ⟨_, _, hx, -, h⟩ := mem_ofClass_mul.1 hy
        obtain rfl : x = '\x7b' := (List.cons.inj h).1.trans (eq_of_beq hx)
        exact .openComment rfl fun h => hnone (begins_of_close (.inl ⟨rfl, h⟩))
      | string =>
        obtain ⟨_, _, hx, -, h⟩ := mem_ofClass_mul.1 hy
        obtain rfl : x = '\'' := (List.cons.inj h).1.trans (eq_of_beq hx)
        exact .openString rfl fun h => hnone (begins_of_close (.inr ⟨rfl, h⟩))
      | _ =>
        obtain ⟨d, hd, hx⟩ := singleton_mem hc (by simp) hy
        exact absurd ⟨d, hd, _, hx, behind, rfl⟩ hnone
    · refine .beginsNone fun c hc y hy hx => hbegins ⟨c, hc, y.tail, ?_⟩
      rwa [← List.eq_cons_of_mem_head? hx]
  · intro h
    cases hnext : next? (x :: behind) with
    | none => rfl
    | some found =>
      obtain ⟨c, piece, rest⟩ := found
      obtain ⟨hc, hsplit⟩ := next?_eq_some hnext
      have hpiece := (takesLongest_split? c).mem hsplit
      obtain ⟨a, w, rfl, ha⟩ := initial_of_mem hc hpiece
      obtain ⟨rfl, rfl⟩ := List.cons.inj (append_of_next? hnext)
      cases h with
      | beginsNone h => exact absurd rfl (h c hc _ hpiece)
      | openComment h hclose =>
        have hbrace : initialOf a = comment.initial := by
          rw [h]
          decide
        obtain rfl := eq_of_initial_eq (by simp) (ha.symm.trans hbrace)
        exact absurd (List.mem_append_left rest (close_mem_comment hpiece)) hclose
      | openString h hclose =>
        have hquote : initialOf a = string.initial := by
          rw [h]
          decide
        obtain rfl := eq_of_initial_eq (by simp) (ha.symm.trans hquote)
        exact absurd (List.mem_append_left rest (close_mem_string hpiece)) hclose

end LexemeClass

/-! ## The numbers that are read -/

/-- A number has the value that it spells: an integer that of its digits, which is not too great,
and a real the finite one that is nearest to its decimal. -/
structure Token.SpellsNumber (t : Token) : Prop where
  integer : t.kind = .integer → ∃ n ≤ maxInteger,
    Decimal.digits? t.text.toList = some n ∧ t.literal = some (.integer n)
  real : t.kind = .real → ∃ d rank, Decimal.ofChars? t.text.toList = some d ∧
    d.toBinary64 false = .finite false rank ∧ t.literal = some (.real (.finite false rank))

namespace LexemeClass

/-- A token has the kind that goes with its lexeme. -/
theorem kindOf?_of_token? (hpiece : piece ∈ c.language) (h : c.token? r piece = .ok (some t)) :
    c.kindOf? piece = some t.kind := by
  by_cases hrange : c.OutOfRange piece
  · rw [token?_eq_error hrange] at h
    cases h
  · obtain ⟨literal, h'⟩ := token?_eq_ok (r := r) hpiece hrange
    obtain ⟨kind, hkind, rfl⟩ := Option.map_eq_some_iff.1 (Except.ok.inj (h'.symm.trans h))
    exact hkind

/-- Neither a word nor a symbol is a number. -/
theorem eq_of_kindOf? (hc : c ∈ all) :
    (c.kindOf? piece = some .integer → c = integer) ∧
      (c.kindOf? piece = some .real → c = real) := by
  cases c with
  | word =>
    have hword : ∀ kind, word.kindOf? piece = some kind →
        kind ≠ .integer ∧ kind ≠ .real := by
      intro kind h
      rw [kindOf?, Option.some.injEq, Option.getD_eq_iff] at h
      rcases h with h | ⟨-, rfl⟩
      · have hnotMem := ofReserved?_notMem_operands h
        simp only [TokenKind.operands, List.mem_cons, not_or] at hnotMem
        exact ⟨hnotMem.2.1, hnotMem.2.2.1⟩
      · decide
    exact ⟨fun h => absurd rfl (hword _ h).1, fun h => absurd rfl (hword _ h).2⟩
  | symbol spelling kind =>
    have hsymbols : ∀ s ∈ TokenKind.symbols, s.2 ≠ .integer ∧ s.2 ≠ .real := by decide
    obtain ⟨hinteger, hreal⟩ := hsymbols _ (mem_all_symbol.1 hc)
    exact ⟨fun h => absurd (Option.some.inj h) hinteger, fun h => absurd (Option.some.inj h) hreal⟩
  | _ => simp [kindOf?]

theorem spellsNumber_of_token? (hc : c ∈ all) (hpiece : piece ∈ c.language)
    (h : c.token? r piece = .ok (some t)) : t.SpellsNumber := by
  constructor
  · intro hk
    obtain rfl := (eq_of_kindOf? hc).1 (hk ▸ kindOf?_of_token? hpiece h)
    simp only [token?] at h
    split at h
    · next hmax =>
      obtain rfl := Option.some.inj (Except.ok.inj h)
      exact ⟨_, hmax, by simpa [token] using digits?_of_mem hpiece, rfl⟩
    · cases h
  · intro hk
    obtain rfl := (eq_of_kindOf? hc).2 (hk ▸ kindOf?_of_token? hpiece h)
    rw [token?] at h
    split at h
    · next value hvalue =>
      obtain rfl := Option.some.inj (Except.ok.inj h)
      obtain ⟨rank, rfl⟩ := exists_rank hvalue
      obtain ⟨d, hd, hrank⟩ := Option.map_eq_some_iff.1 (Option.filter_eq_some_iff.1 hvalue).1
      exact ⟨d, rank, by simpa [token] using hd, hrank, rfl⟩
    · cases h

end LexemeClass

/-! ## The error -/

/-- What a scan has come to when it fails in front of a text. -/
inductive FailsAt : List Char → Cause → Prop
  | unrecognised {x : Char} {behind : List Char} (h : Unrecognised x behind) :
      FailsAt (x :: behind) (.unrecognisedToken (String.singleton x))
  /-- The number is the longest one, and it is too great. -/
  | number {piece rest : List Char}
      (hlongest : ∀ c ∈ [integer, real], ∀ y ∈ c.language, y <+: piece ++ rest →
        y.length ≤ piece.length)
      (hrange : piece ∈ integer.language ∧ maxInteger < Decimal.ofDigits piece ∨
        piece ∈ real.language ∧ ∃ d, Decimal.ofChars? piece = some d ∧
          d.toBinary64 false = .infinite false) :
      FailsAt (piece ++ rest) (.numberParse (String.ofList piece))

theorem FailsAt.ne_nil {cause : Cause} (h : FailsAt behind cause) : behind ≠ [] := by
  cases h with
  | unrecognised => exact List.cons_ne_nil _ _
  | @number piece rest _ hrange =>
    have hne : piece ≠ [] := by
      rcases hrange with ⟨h, -⟩ | ⟨h, -⟩
      · exact ne_nil_of_mem_digitRun h
      · obtain ⟨a, w, rfl, -⟩ := initial_of_mem (by decide) h
        exact List.cons_ne_nil a w
    simp [hne]

theorem Reader.Fails.failsAt (h : r.Fails e) :
    ∃ cause, e = r.error cause ∧ FailsAt r.rest cause := by
  cases h with
  | unrecognised hnext hrest =>
    obtain ⟨x, behind, hx⟩ := List.exists_cons_of_ne_nil hrest
    refine ⟨_, rfl, ?_⟩
    rw [hx] at hnext ⊢
    have hcurrent : r.current = x := by rw [current, hx]; rfl
    rw [hcurrent]
    exact .unrecognised (next?_eq_none_iff.1 hnext)
  | @outOfRange c piece rest hnext hrange =>
    refine ⟨_, rfl, ?_⟩
    obtain ⟨hc, hsplit⟩ := next?_eq_some hnext
    have hpiece := (takesLongest_split? c).mem hsplit
    have hsplit' := append_of_next? hnext
    rw [← hsplit'] at hnext ⊢
    obtain ⟨-, -, hlongest⟩ := next?_append_eq_some_iff.1 hnext
    refine .number (fun d hd => hlongest d ?_) ?_
    · revert d
      decide
    · cases c with
      | integer => exact .inl ⟨hpiece, hrange⟩
      | real =>
        obtain ⟨d, hd, hinfinite⟩ := hrange
        refine .inr ⟨hpiece, d, hd, ?_⟩
        rw [Decimal.toBinary64, Binary64.ofRank] at hinfinite ⊢
        split at hinfinite
        · cases hinfinite
        · next hrank => exact dif_neg hrank
      | _ => exact hrange.elim

/-- The error stands behind a part of the source that has tokens by itself. -/
theorem failsAt_of_tokenize (hsize : source.utf8ByteSize < 2 ^ 32)
    (h : tokenize source file = .error e) : ∃ before behind, source.toList = before ++ behind ∧
      e.position.file = file ∧ e.position.offset.toNat = byteLength before ∧
      (∃ tokens, tokenize (String.ofList before) file = .ok tokens) ∧ FailsAt behind e.cause := by
  obtain ⟨ts, r, walk, hfails⟩ := walk_of_error h
  obtain ⟨cause, rfl, hcause⟩ := hfails.failsAt
  obtain ⟨before, hsource, hr⟩ := walk.exists_text
  have hoffset : r.offset = byteLength before := by
    rw [hr]
    exact Nat.zero_add _
  refine ⟨before, r.rest, hsource, ?_, ?_, ?_, hcause⟩
  · rw [hr]
    rfl
  · rw [← toNat_offset hsize hsource, ← hoffset]
    rfl
  · have hcut := walk.cut hsource
    have hbefore : (Reader.ofSource source file).inFrontOf before =
        .ofSource (String.ofList before) file := by simp [ofSource, inFrontOf]
    rw [hbefore] at hcut
    exact ⟨_, tokenize_of_walk hcut rfl⟩

theorem spellsNumber_of_tokenize {tokens : List Token} (h : tokenize source file = .ok tokens) :
    ∀ t ∈ tokens, t.SpellsNumber := by
  obtain ⟨ts, r, walk, -, rfl⟩ := walk_of_tokenize h
  refine List.forall_mem_append.2 ⟨fun t ht => ?_, List.forall_mem_singleton.2 ⟨nofun, nofun⟩⟩
  obtain ⟨text, c, piece, rest, -, -, -, -, hnext, htoken, -⟩ := walk.exists_of_mem ht
  obtain ⟨hc, hsplit⟩ := next?_eq_some hnext
  exact spellsNumber_of_token? hc ((takesLongest_split? c).mem hsplit) htoken

/-- **A scan fails only where it has to**, where the offsets of the source fit a word: what stands
before the error has tokens by itself, and behind it no lexeme begins or a number is too great. The
numbers of a source without an error are the ones that it spells. -/
theorem failures_are_exact (hsize : source.utf8ByteSize < 2 ^ 32) :
    (∀ e, tokenize source file = .error e → ∃ before behind, source.toList = before ++ behind ∧
      behind ≠ [] ∧ e.position.file = file ∧ e.position.offset.toNat = byteLength before ∧
      (∃ tokens, tokenize (String.ofList before) file = .ok tokens) ∧ FailsAt behind e.cause) ∧
    ∀ tokens, tokenize source file = .ok tokens → ∀ t ∈ tokens, t.SpellsNumber := by
  refine ⟨fun e h => ?_, fun tokens h => spellsNumber_of_tokenize h⟩
  obtain ⟨before, behind, hsource, hfile, hoffset, htokens, hcause⟩ := failsAt_of_tokenize hsize h
  exact ⟨before, behind, hsource, hcause.ne_nil, hfile, hoffset, htokens, hcause⟩

/-- A quote that is left over: the string in front of it ends with the first of two quotes. -/
theorem leftover_quote_fails :
    "a'b''c".utf8ByteSize < 2 ^ 32 ∧
      tokenize "a'b''c" "" = .error ⟨.unrecognisedToken "'", ⟨"", 4⟩⟩ ∧
      ∃ before behind, "a'b''c".toList = before ++ behind ∧ byteLength before = 4 ∧
        (∃ tokens, tokenize (String.ofList before) "" = .ok tokens) ∧
        FailsAt behind (.unrecognisedToken "'") := by
  have hsize : "a'b''c".utf8ByteSize < 2 ^ 32 := by decide +kernel
  have herror : tokenize "a'b''c" "" = .error ⟨.unrecognisedToken "'", ⟨"", 4⟩⟩ := by cbv
  obtain ⟨before, behind, hsource, -, -, hoffset, htokens, hfails⟩ :=
    (failures_are_exact hsize).1 _ herror
  exact ⟨hsize, herror, before, behind, hsource, hoffset.symm, htokens, hfails⟩

end PascalBlock
