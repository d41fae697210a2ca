import PascalBlock.Proofs.Text.LetterCase
import PascalBlock.Proofs.Token.Walk

/-!
# Lexemes in large and small letters

No class of lexemes cares for the case of letters, so texts that differ in nothing else fall into
lexemes at the same places. A lexeme denotes the same in any case, unless it is a string. `Recased`
leaves the strings as they are, and such texts have the same tokens but for their spelling
(`Walk.recased`).
-/

namespace PascalBlock

open Text Splitter LexemeClass
open scoped Computability

variable {r r' : Reader} {c : LexemeClass} {ts : List Token} {found : Option Token}
  {piece piece' rest rest' x y cs cs' : List Char}

/-! ## Tokens in small letters -/

namespace Token

/-- The token, spelled in small letters. -/
def folded (t : Token) : Token := { t with text := Text.folded t.text }

/-- The name does not depend on the case. -/
theorem name_folded (t : Token) : t.folded.name = t.name := by
  have h := (SameLetters.toLower t.text.toList).lowercase_eq
  rwa [String.ofList_toList] at h

end Token

theorem Reader.folded_token (h : SameLetters x y) (r : Reader) (kind : TokenKind)
    (literal : Option Literal) (cs : List Char) :
    ((r.inFrontOf cs).token kind y literal).folded = (r.token kind x literal).folded := by
  have hspan : (r.inFrontOf cs).span (byteLength y) = r.span (byteLength x) := by
    rw [h.byteLength_eq]
    rfl
  simp only [token, Token.folded, Text.folded, hspan, String.toList_ofList]
  rw [h]
  rfl

/-! ## Numbers -/

namespace Decimal

theorem caseless_isDigit : Caseless Char.isDigit := caseless_of_capitals (by decide)

/-- Digits have one form only. -/
theorem toLower_of_isDigit (h : ∀ a ∈ x, a.isDigit = true) : x.map Char.toLower = x := by
  refine (List.map_congr_left fun a ha => ?_).trans (List.map_id _)
  have hnat := toNat_of_isDigit (h a ha)
  exact Unicode.toLower_eq_self (by omega)

theorem takeWhile_isDigit_toLower (x : List Char) :
    (x.map Char.toLower).takeWhile Char.isDigit = x.takeWhile Char.isDigit := by
  rw [caseless_isDigit.takeWhile_toLower]
  exact toLower_of_isDigit fun a => List.mem_takeWhile_imp

theorem digits?_toLower (x : List Char) : digits? (x.map Char.toLower) = digits? x := by
  have hall : (x.map Char.toLower).all Char.isDigit = x.all Char.isDigit := by
    rw [List.all_map, show Char.isDigit ∘ Char.toLower = Char.isDigit from funext caseless_isDigit]
  rw [digits?, digits?, hall, List.isEmpty_map]
  split
  · next h =>
    rw [Bool.and_eq_true, List.all_eq_true] at h
    rw [toLower_of_isDigit h.2]
  · rfl

theorem splitSign_cons (a : Char) (x : List Char) : splitSign (a :: x) =
    if a = '-' then (true, x) else if a = '+' then (false, x) else (false, a :: x) := by
  split_ifs with hminus hplus
  · rw [hminus, splitSign]
  · rw [hplus, splitSign]
  · rw [splitSign]
    · exact fun _ h => hminus (List.cons.inj h).1
    · exact fun _ h => hplus (List.cons.inj h).1

theorem splitSign_toLower (x : List Char) :
    splitSign (x.map Char.toLower) = ((splitSign x).1, (splitSign x).2.map Char.toLower) := by
  cases x with
  | nil => rfl
  | cons a x =>
    have hminus : a.toLower = '-' ↔ a = '-' := toLower_eq_iff rfl
    have hplus : a.toLower = '+' ↔ a = '+' := toLower_eq_iff rfl
    rw [List.map_cons, splitSign_cons, splitSign_cons]
    simp only [hminus, hplus]
    split_ifs <;> rfl

theorem exponent?_toLower (x : List Char) : exponent? (x.map Char.toLower) = exponent? x := by
  cases x with
  | nil => rfl
  | cons a x =>
    have hletter : Caseless fun a => a = 'e' ∨ a = 'E' := caseless_of_capitals (by decide)
    have ha : (a.toLower = 'e' ∨ a.toLower = 'E') = (a = 'e' ∨ a = 'E') :=
      propext (decide_eq_decide.1 (hletter a))
    simp only [List.map_cons, exponent?, ha, splitSign_toLower, digits?_toLower]

theorem splitFraction_cons (a : Char) (x : List Char) : splitFraction (a :: x) =
    if a = '.' then (x.takeWhile Char.isDigit, x.dropWhile Char.isDigit) else ([], a :: x) := by
  split_ifs with hpoint
  · rw [hpoint, splitFraction]
  · rw [splitFraction]
    exact fun _ h => hpoint (List.cons.inj h).1

theorem splitFraction_toLower (x : List Char) : splitFraction (x.map Char.toLower) =
    ((splitFraction x).1, (splitFraction x).2.map Char.toLower) := by
  cases x with
  | nil => rfl
  | cons a x =>
    have hpoint : a.toLower = '.' ↔ a = '.' := toLower_eq_iff rfl
    rw [List.map_cons, splitFraction_cons, splitFraction_cons]
    simp only [hpoint, takeWhile_isDigit_toLower, caseless_isDigit.dropWhile_toLower]
    split_ifs <;> rfl

theorem ofChars?_toLower (x : List Char) : ofChars? (x.map Char.toLower) = ofChars? x := by
  simp only [ofChars?, takeWhile_isDigit_toLower, caseless_isDigit.dropWhile_toLower,
    splitFraction_toLower, exponent?_toLower]

end Decimal

theorem realValue?_eq (h : SameLetters x y) : realValue? y = realValue? x := by
  rw [realValue?, realValue?, ← Decimal.ofChars?_toLower y, ← h, Decimal.ofChars?_toLower]

/-! ## Lexemes -/

namespace LexemeClass

theorem caseless_exponentPart : exponentPart.Caseless :=
  ⟨caseless_of_capitals (by decide), ⟨caseless_of_capitals (by decide), trivial⟩,
    Decimal.caseless_isDigit, Decimal.caseless_isDigit⟩

theorem caseless_fractionPart : fractionPart.Caseless :=
  ⟨caseless_of_capitals (by decide), Decimal.caseless_isDigit, Decimal.caseless_isDigit⟩

theorem caseless_stringTail : stringTail.Caseless := by
  have hpair : ∀ a ∈ ['\'', '\''], a.isAlpha = false := by
    intro a ha
    obtain rfl : a = '\'' := by simpa using ha
    rfl
  exact ⟨⟨caseless_of_capitals (by decide), hpair⟩, caseless_of_capitals (by decide)⟩

/-- No class cares for the case of letters. -/
theorem caseless_regex (hc : c ∈ all) : c.regex.Caseless := by
  have hdigits : digitRun.Caseless := ⟨Decimal.caseless_isDigit, Decimal.caseless_isDigit⟩
  cases c with
  | blank =>
    have hblank : Caseless Unicode.isWhiteSpace := caseless_of_capitals (by decide)
    exact ⟨hblank, hblank⟩
  | comment =>
    have hinside : Caseless (· != '\x7d') := caseless_of_capitals (by decide)
    exact ⟨caseless_of_capitals (by decide), hinside, caseless_of_capitals (by decide)⟩
  | word => exact ⟨caseless_of_capitals (by decide), caseless_of_capitals (by decide)⟩
  | real =>
    exact ⟨hdigits, ⟨caseless_fractionPart, caseless_exponentPart, trivial⟩, caseless_exponentPart⟩
  | integer => exact hdigits
  | string => exact ⟨caseless_of_capitals (by decide), caseless_stringTail⟩
  | symbol spelling kind =>
    have hsymbols : (TokenKind.symbols.all fun s => s.1.toList.all fun a => !a.isAlpha) = true := by
      decide +kernel
    intro a ha
    simpa using of_mem_symbol hsymbols hc a ha

/-- The lexeme in front is the longest in any case of letters. -/
theorem next?_recased (h : next? (piece ++ rest) = some (c, piece, rest))
    (hpiece : SameLetters piece piece') (hrest : SameLetters rest rest') :
    next? (piece' ++ rest') = some (c, piece', rest') := by
  obtain ⟨hc, hmem, hlongest⟩ := next?_append_eq_some_iff.1 h
  refine next?_append_eq_some_iff.2 ⟨hc, (caseless_regex hc).of_mem hmem hpiece, ?_⟩
  rintro d hd y hy ⟨z, hz⟩
  have hboth : SameLetters (y ++ z) (piece ++ rest) := hz ▸ (hpiece.append hrest).symm
  obtain ⟨y', z', heq, hy', -⟩ := hboth.exists_append
  rw [hy'.length_eq, ← hpiece.length_eq]
  exact hlongest d hd y' ((caseless_regex hd).of_mem hy hy') ⟨z', heq.symm⟩

/-- What is no string becomes the same token in any case, but for the spelling. -/
theorem token?_recased (hmem : piece ∈ c.language) (h : c.token? r piece = .ok found)
    (hpiece : SameLetters piece piece') (hstring : c = .string → piece' = piece) (cs : List Char) :
    ∃ found', c.token? (r.inFrontOf cs) piece' = .ok found' ∧
      found'.map Token.folded = found.map Token.folded := by
  have hfolded (kind : TokenKind) (literal : Option Literal) :
      some ((r.inFrontOf cs).token kind piece' literal).folded =
        some (r.token kind piece literal).folded :=
    congrArg some (Reader.folded_token hpiece r kind literal cs)
  cases c with
  | blank | comment =>
    obtain rfl := Except.ok.inj h
    exact ⟨none, rfl, rfl⟩
  | word =>
    obtain rfl := Except.ok.inj h
    have hkind : wordKind piece' = wordKind piece := by rw [wordKind, ← hpiece, wordKind]
    exact ⟨_, rfl, by rw [hkind]; exact hfolded _ _⟩
  | real =>
    simp only [token?] at h ⊢
    rw [realValue?_eq hpiece]
    split at h
    · obtain rfl := Except.ok.inj h
      exact ⟨_, rfl, hfolded _ _⟩
    · cases h
  | integer =>
    obtain rfl := hpiece.eq fun a ha => isAlpha_of_isDigit (isDigit_of_mem_digitRun hmem a ha)
    simp only [token?] at h ⊢
    split at h
    · next hrange =>
      obtain rfl := Except.ok.inj h
      rw [if_pos hrange]
      exact ⟨_, rfl, hfolded _ _⟩
    · cases h
  | string =>
    obtain rfl := hstring rfl
    obtain rfl := Except.ok.inj h
    exact ⟨_, rfl, hfolded _ _⟩
  | symbol spelling kind =>
    obtain rfl := Except.ok.inj h
    exact ⟨_, rfl, hfolded _ _⟩

end LexemeClass

/-! ## Recased texts -/

/-- Lexeme by lexeme the second text differs from the first one in the case of letters only, and
not at all where the lexeme is a string. -/
inductive Recased : List Char → List Char → Prop
  | nil : Recased [] []
  | lexeme {c : LexemeClass} {piece piece' rest rest' : List Char}
      (hnext : next? (piece ++ rest) = some (c, piece, rest)) (hpiece : SameLetters piece piece')
      (hstring : c = .string → piece' = piece) (behind : Recased rest rest') :
      Recased (piece ++ rest) (piece' ++ rest')

theorem Recased.sameLetters (h : Recased cs cs') : SameLetters cs cs' := by
  induction h with
  | nil => exact .refl _
  | lexeme _ hpiece _ _ ih => exact hpiece.append ih

theorem Recased.of_next? (h : Recased cs cs') (hnext : next? cs = some (c, piece, rest)) :
    ∃ piece' rest', cs' = piece' ++ rest' ∧ SameLetters piece piece' ∧
      (c = .string → piece' = piece) ∧ Recased rest rest' := by
  cases h with
  | nil => cases next?_length_lt hnext
  | lexeme hnext' hpiece hstring behind =>
    obtain ⟨rfl, hx⟩ := Prod.mk.inj (Option.some.inj (hnext'.symm.trans hnext))
    obtain ⟨rfl, rfl⟩ := Prod.mk.inj hx
    exact ⟨_, _, rfl, hpiece, hstring, behind⟩

namespace Reader

theorem past_recased (hpiece : SameLetters piece piece') (r : Reader) :
    (r.inFrontOf cs).past piece' cs' = (r.past piece rest).inFrontOf cs' := by
  rw [past, past, ← hpiece.byteLength_eq, ← hpiece.newlines_eq]
  rfl

/-- A text is walked through alike in any case of the letters outside of the strings. -/
theorem Walk.recased (h : Walk r ts r') (hend : r'.rest = []) : ∀ {cs'}, Recased r.rest cs' →
    ∃ ts', Walk (r.inFrontOf cs') ts' (r'.inFrontOf []) ∧
      ts'.map Token.folded = ts.map Token.folded := by
  induction h with
  | refl r =>
    intro cs' hcs
    rw [hend] at hcs
    rw [hcs.sameLetters.eq_nil]
    exact ⟨[], .refl _, rfl⟩
  | @step r r' c piece rest found ts hnext htoken walk ih =>
    intro cs' hcs
    obtain ⟨piece', rest', rfl, hpiece, hstring, hrest⟩ := hcs.of_next? hnext
    have hmem := (takesLongest_split? c).mem (next?_eq_some hnext).2
    obtain ⟨found', htoken', hfound⟩ := token?_recased hmem htoken hpiece hstring (piece' ++ rest')
    obtain ⟨ts', walk', hts⟩ := ih hend hrest
    rw [← append_of_next? hnext] at hnext
    rw [← past_recased hpiece r] at walk'
    have hnext' := next?_recased hnext hpiece hrest.sameLetters
    refine ⟨_, .step hnext' htoken' walk', ?_⟩
    rw [List.map_append, List.map_append, hts, ← Option.toList_map, ← Option.toList_map, hfound]

/-- Texts that differ in the case of letters are recased, if the string tokens of the one are
spelled by the same bytes of the other. -/
theorem Walk.recased_of_strings {source : String} (h : Walk r ts r') (hend : r'.rest = [])
    (hsize : r.offset + byteLength r.rest < 2 ^ 32)
    (hstrings : ∀ t ∈ ts, t.kind = .string →
      source.toByteArray.extract t.start.offset.toNat t.stop.offset.toNat = t.text.toByteArray) :
    ∀ {cs'}, SameLetters r.rest cs' → ReadsFrom source r.offset cs' → Recased r.rest cs' := by
  induction h with
  | refl r =>
    intro cs' hletters _
    rw [hend] at hletters ⊢
    rw [hletters.eq_nil]
    exact .nil
  | @step r r' c piece rest found ts hnext htoken walk ih =>
    intro cs' hletters hreads
    have hsplit := append_of_next? hnext
    rw [← hsplit] at hletters hnext hsize ⊢
    rw [byteLength_append, ← Nat.add_assoc] at hsize
    obtain ⟨piece', rest', rfl, hpiece, hrest⟩ := hletters.exists_append
    refine .lexeme hnext hpiece ?_ (ih hend hsize ?_ hrest ?_)
    · rintro rfl
      obtain rfl := Except.ok.inj htoken
      obtain ⟨hstart, hstop⟩ := toNat_span .string (some (.string (stringValue piece)))
        (Nat.lt_of_le_of_lt (Nat.le_add_right _ _) hsize)
      have hbytes := hstrings _ (List.mem_append_left _ (List.mem_singleton.2 rfl)) rfl
      rw [hstart, hstop, hpiece.byteLength_eq, hreads.extract_eq] at hbytes
      exact String.ofList_injective (String.toByteArray_inj.1 hbytes)
    · exact fun t ht => hstrings t (List.mem_append_right _ ht)
    · rw [past, hpiece.byteLength_eq]
      exact hreads.past

end Reader

/-! ## Sources -/

variable {source source' file : String} {tokens : List Token}

/-- The tokens are the same but for their spelling. -/
theorem tokenize_recased (h : tokenize source file = .ok tokens)
    (hs : Recased source.toList source'.toList) :
    ∃ tokens', tokenize source' file = .ok tokens' ∧
      tokens'.map Token.folded = tokens.map Token.folded := by
  obtain ⟨ts, r, walk, hend, rfl⟩ := walk_of_tokenize h
  obtain ⟨ts', walk', hts⟩ := walk.recased hend hs
  exact ⟨_, tokenize_of_walk walk' rfl, by rw [List.map_append, List.map_append, hts]; rfl⟩

/-- The case of letters may change wherever no string token stands, as its offsets have it. -/
theorem recased_of_strings (h : tokenize source file = .ok tokens)
    (hsize : source.utf8ByteSize < 2 ^ 32) (hletters : SameLetters source.toList source'.toList)
    (hstrings : ∀ t ∈ tokens, t.kind = .string →
      source'.toByteArray.extract t.start.offset.toNat t.stop.offset.toNat = t.text.toByteArray) :
    Recased source.toList source'.toList := by
  obtain ⟨ts, r, walk, hend, rfl⟩ := walk_of_tokenize h
  rw [utf8ByteSize_eq, ← Nat.zero_add (byteLength _)] at hsize
  refine walk.recased_of_strings hend hsize (fun t ht => ?_) hletters (readsFrom_zero source')
  exact hstrings t (List.mem_append_left _ ht)

end PascalBlock
