import PascalBlock.Proofs.Text.Bytes
import PascalBlock.Proofs.Token.FirstMatch

/-!
# Tokens tile the source

Every step of a scan takes the next piece of the text, and the piece is a token's or it lies in a
gap. Main result: in the source the tokens stand in order and apart, each spelled by the bytes
between its offsets, and what is left between them are blanks and comments.
-/

namespace PascalBlock

open Text Splitter LexemeClass
open scoped Computability

/-- What may stand between tokens: blanks and comments. -/
def gap : Language Char := (ofClass Unicode.isWhiteSpace + comment.language)∗

/-- The tokens of a text that starts at the offset `n`, one behind the other and each behind a gap;
the last one marks the end. -/
inductive Tiling : Nat → List Char → List Token → Prop
  | ending {n : Nat} {w : List Char} {e : Token} : w ∈ gap → e.kind = .endOfText →
      e.start.offset.toNat = n + byteLength w → e.stop.offset.toNat = n + byteLength w →
      Tiling n w [e]
  | token {n : Nat} {w piece rest : List Char} {t : Token} {ts : List Token} : w ∈ gap →
      piece ≠ [] → t.kind ≠ .endOfText → t.text = String.ofList piece →
      t.start.offset.toNat = n + byteLength w →
      t.stop.offset.toNat = n + byteLength w + byteLength piece →
      Tiling (n + byteLength w + byteLength piece) rest ts →
      Tiling n (w ++ (piece ++ rest)) (t :: ts)

variable {r : Reader} {c : LexemeClass} {t e : Token} {tokens ts before : List Token} {n i j : Nat}
  {w cs pre piece rest : List Char} {source : String}

/-! ## Gaps -/

theorem nil_mem_gap : [] ∈ gap := Language.nil_mem_kstar _

theorem append_mem_gap (hw : w ∈ gap) (hcs : cs ∈ gap) : w ++ cs ∈ gap := by
  obtain ⟨ws, rfl, hws⟩ := Language.mem_kstar.1 hw
  obtain ⟨us, rfl, hus⟩ := Language.mem_kstar.1 hcs
  refine Language.mem_kstar.2 ⟨ws ++ us, List.flatten_append.symm, fun v hv => ?_⟩
  rcases List.mem_append.1 hv with hv | hv
  · exact hws v hv
  · exact hus v hv

theorem le_gap : ofClass Unicode.isWhiteSpace + comment.language ≤ gap := le_kstar

theorem blanks_mem_gap (h : ∀ c ∈ w, Unicode.isWhiteSpace c = true) : w ∈ gap := by
  induction w with
  | nil => exact nil_mem_gap
  | cons c w ih =>
    rw [List.forall_mem_cons] at h
    refine append_mem_gap (w := [c]) (le_gap ?_) (ih h.2)
    exact (Language.mem_add _ _ _).2 (.inl ⟨c, h.1, rfl⟩)

theorem comment_mem_gap (h : w ∈ comment.language) : w ∈ gap :=
  le_gap ((Language.mem_add _ _ _).2 (.inr h))

/-! ## What the scan finds -/

/-- More of a gap in front. -/
theorem Tiling.behind_gap (hw : w ∈ gap) (h : Tiling (n + byteLength w) cs tokens) :
    Tiling n (w ++ cs) tokens := by
  cases h with
  | ending hv hkind hstart hstop =>
    refine .ending (append_mem_gap hw hv) hkind ?_ ?_
    · rw [hstart, byteLength_append, Nat.add_assoc]
    · rw [hstop, byteLength_append, Nat.add_assoc]
  | token hv hne hkind htext hstart hstop h =>
    rw [← List.append_assoc]
    refine .token (append_mem_gap hw hv) hne hkind htext ?_ ?_ ?_
    · rw [hstart, byteLength_append, Nat.add_assoc]
    · rw [hstop, byteLength_append, Nat.add_assoc n]
    · rwa [byteLength_append, ← Nat.add_assoc]

/-- The kind of a token that is scanned never marks the end. -/
theorem LexemeClass.ne_endOfText_of_kindOf? {kind : TokenKind} (hc : c ∈ all)
    (h : c.kindOf? piece = some kind) : kind ≠ .endOfText := by
  rintro rfl
  cases c with
  | blank | comment => cases h
  | word =>
    have hreserved : ∀ s ∈ TokenKind.reservedWords, s.2 ≠ .endOfText := by decide
    rw [kindOf?, Option.some.injEq, Option.getD_eq_iff] at h
    rcases h with h | ⟨-, h⟩
    · obtain ⟨before, behind, hwords, -⟩ := List.lookup_eq_some_iff.1 h
      exact hreserved _ (hwords ▸ List.mem_append_right _ List.mem_cons_self) rfl
    · cases h
  | symbol spelling kind =>
    have hsymbols : ∀ s ∈ TokenKind.symbols, s.2 ≠ .endOfText := by decide
    exact hsymbols _ (mem_all_symbol.1 hc) (Option.some.inj h)
  | _ => cases h

/-- A lexeme lies in a gap, or it becomes a token that is spelled like it. -/
theorem LexemeClass.of_token?_eq_ok {found : Option Token} (hc : c ∈ all)
    (hpiece : piece ∈ c.language) (h : c.token? r piece = .ok found) :
    found = none ∧ piece ∈ gap ∨
      ∃ kind literal, found = some (r.token kind piece literal) ∧ kind ≠ .endOfText := by
  by_cases hrange : c.OutOfRange piece
  · rw [token?_eq_error hrange] at h
    cases h
  · obtain ⟨literal, htoken⟩ := token?_eq_ok (r := r) hpiece hrange
    obtain rfl := Except.ok.inj (htoken.symm.trans h)
    cases hkind : c.kindOf? piece with
    | some kind => exact .inr ⟨kind, literal, rfl, ne_endOfText_of_kindOf? hc hkind⟩
    | none =>
      refine .inl ⟨rfl, ?_⟩
      cases c with
      | blank =>
        obtain ⟨d, v, hd, hv, rfl⟩ := mem_ofClass_mul.1 hpiece
        exact blanks_mem_gap (List.forall_mem_cons.2 ⟨hd, mem_kstar_ofClass.1 hv⟩)
      | comment => exact comment_mem_gap hpiece
      | _ => cases hkind

/-- A token that is read here has the offsets of its piece, as long as they fit a word. -/
theorem toNat_span (kind : TokenKind) (literal : Option Literal)
    (hsize : r.offset + byteLength piece < 2 ^ 32) :
    (r.token kind piece literal).start.offset.toNat = r.offset ∧
      (r.token kind piece literal).stop.offset.toNat = r.offset + byteLength piece :=
  ⟨UInt32.toNat_ofNat_of_lt' (by simp only [UInt32.size]; omega),
    UInt32.toNat_ofNat_of_lt' (by simp only [UInt32.size]; omega)⟩

/-- Every piece is a part of a gap or a token's. -/
theorem tiling_scan (hsize : r.offset + byteLength r.rest < 2 ^ 32)
    (h : r.scan before = .ok tokens) :
    ∃ found, tokens = before.reverse ++ found ∧ Tiling r.offset r.rest found := by
  fun_induction Reader.scan r before with
  | case1 r before c piece rest hnext htoken ih =>
    obtain ⟨hc, hsplit⟩ := next?_eq_some hnext
    have hrest := sound_split? c _ _ _ hsplit
    have hgap : piece ∈ gap := by
      rcases of_token?_eq_ok hc ((takesLongest_split? c).mem hsplit) htoken with h | ⟨_, _, h, -⟩
      · exact h.2
      · cases h
    rw [← hrest, byteLength_append, ← Nat.add_assoc] at hsize
    obtain ⟨found, rfl, hfound⟩ := ih hsize h
    rw [← hrest]
    exact ⟨found, rfl, hfound.behind_gap hgap⟩
  | case2 r before c piece rest hnext t htoken ih =>
    obtain ⟨hc, hsplit⟩ := next?_eq_some hnext
    have hrest := sound_split? c _ _ _ hsplit
    rw [← hrest, byteLength_append, ← Nat.add_assoc] at hsize
    obtain ⟨found, rfl, hfound⟩ := ih hsize h
    have hpiece := (takesLongest_split? c).mem hsplit
    rcases of_token?_eq_ok hc hpiece htoken with h | ⟨kind, literal, h, hkind⟩
    · cases h.1
    · obtain rfl := Option.some.inj h
      obtain ⟨hstart, hstop⟩ := toNat_span kind literal (Nat.lt_of_le_of_lt
        (Nat.le_add_right _ _) hsize)
      refine ⟨_ :: found, by rw [List.reverse_cons, List.append_assoc, List.singleton_append], ?_⟩
      rw [← hrest, ← List.nil_append (piece ++ rest)]
      exact .token nil_mem_gap (consumes_split? c hc _ _ _ hsplit) hkind rfl hstart hstop hfound
  | case3 r before c piece rest hnext e htoken => cases h
  | case4 r before hnext hend =>
    obtain rfl := Except.ok.inj h
    refine ⟨[r.endToken], by rw [List.reverse_cons], ?_⟩
    have hnil : r.rest = [] := List.isEmpty_iff.1 hend
    rw [hnil]
    have hoffset : r.endToken.start.offset.toNat = r.offset :=
      UInt32.toNat_ofNat_of_lt' (by simp only [UInt32.size]; omega)
    exact .ending nil_mem_gap rfl hoffset hoffset
  | case5 r before hnext hend => cases h

/-! ## The bytes of the source -/

/-- The bytes from one offset to another are those of a gap. -/
def IsGap (source : String) (i j : Nat) : Prop :=
  i ≤ j ∧ ∃ w ∈ gap, source.toByteArray.extract i j = (String.ofList w).toByteArray

/-- What a token takes up of its source; the mark at the end takes up nothing. -/
def Token.spelling (t : Token) : List Char := if t.kind = .endOfText then [] else t.text.toList

/-- The tokens and the gaps between them make up the source. -/
structure Tiles (source : String) (tokens : List Token) : Prop where
  ends : ∃ found e, tokens = found ++ [e] ∧ (∀ t ∈ found, t.kind ≠ .endOfText) ∧
    e.kind = .endOfText ∧ e.start.offset.toNat = source.utf8ByteSize ∧
    e.stop.offset.toNat = source.utf8ByteSize
  spelled : ∀ t ∈ tokens, t.kind ≠ .endOfText → t.start.offset < t.stop.offset ∧
    source.toByteArray.extract t.start.offset.toNat t.stop.offset.toNat = t.text.toByteArray
  ordered : tokens.Pairwise fun a b => a.stop.offset ≤ b.start.offset
  front : ∀ t ∈ tokens.head?, IsGap source 0 t.start.offset.toNat
  between : tokens.IsChain fun a b => IsGap source a.stop.offset.toNat b.start.offset.toNat
  whole : ∃ gaps : List (List Char), gaps.length = tokens.length ∧ (∀ w ∈ gaps, w ∈ gap) ∧
    source.toList = (gaps.zip tokens).flatMap fun x => x.1 ++ x.2.spelling

namespace Tiling

theorem ends (h : Tiling n cs tokens) (hs : ReadsFrom source n cs) :
    ∃ found e, tokens = found ++ [e] ∧ (∀ t ∈ found, t.kind ≠ .endOfText) ∧
      e.kind = .endOfText ∧ e.start.offset.toNat = source.utf8ByteSize ∧
      e.stop.offset.toNat = source.utf8ByteSize := by
  induction h with
  | ending _ hkind hstart hstop =>
    exact ⟨[], _, rfl, by simp, hkind, hstart.trans hs.size_eq, hstop.trans hs.size_eq⟩
  | token _ _ hkind _ _ _ _ ih =>
    obtain ⟨found, e, rfl, hfound, he⟩ := ih hs.past.past
    exact ⟨_ :: found, e, rfl, List.forall_mem_cons.2 ⟨hkind, hfound⟩, he⟩

theorem spelled (h : Tiling n cs tokens) (hs : ReadsFrom source n cs) :
    ∀ t ∈ tokens, t.kind ≠ .endOfText → t.start.offset < t.stop.offset ∧
      source.toByteArray.extract t.start.offset.toNat t.stop.offset.toNat = t.text.toByteArray := by
  induction h with
  | ending _ hkind => simp [hkind]
  | token _ hne _ htext hstart hstop _ ih =>
    refine List.forall_mem_cons.2 ⟨fun _ => ⟨?_, ?_⟩, ih hs.past.past⟩
    · have hpos := byteLength_pos hne
      rw [UInt32.lt_iff_toNat_lt, hstart, hstop]
      omega
    · rw [hstart, hstop, htext]
      exact hs.past.extract_eq

/-- No token starts before the text does. -/
theorem le_start (h : Tiling n cs tokens) : ∀ t ∈ tokens, n ≤ t.start.offset.toNat := by
  induction h with
  | ending _ _ hstart => simp [hstart]
  | token _ _ _ _ hstart _ _ ih =>
    refine List.forall_mem_cons.2 ⟨by omega, fun t ht => ?_⟩
    have hle := ih t ht
    omega

theorem ordered (h : Tiling n cs tokens) :
    tokens.Pairwise fun a b => a.stop.offset ≤ b.start.offset := by
  induction h with
  | ending => exact List.pairwise_singleton _ _
  | token _ _ _ _ _ hstop h ih =>
    refine List.pairwise_cons.2 ⟨fun t ht => ?_, ih⟩
    rw [UInt32.le_iff_toNat_le, hstop]
    exact h.le_start t ht

theorem front (h : Tiling n cs tokens) (hs : ReadsFrom source n cs) :
    ∀ t ∈ tokens.head?, IsGap source n t.start.offset.toNat := by
  rintro t ht
  cases h with
  | ending hw _ hstart =>
    obtain rfl := Option.some.inj ht
    rw [hstart]
    exact ⟨Nat.le_add_right _ _, _, hw, (List.append_nil cs ▸ hs).extract_eq⟩
  | token hw _ _ _ hstart =>
    obtain rfl := Option.some.inj ht
    rw [hstart]
    exact ⟨Nat.le_add_right _ _, _, hw, hs.extract_eq⟩

theorem between (h : Tiling n cs tokens) (hs : ReadsFrom source n cs) :
    tokens.IsChain fun a b => IsGap source a.stop.offset.toNat b.start.offset.toNat := by
  induction h with
  | ending => exact List.isChain_singleton _
  | token _ _ _ _ _ hstop h ih =>
    refine List.isChain_cons.2 ⟨fun b hb => ?_, ih hs.past.past⟩
    rw [hstop]
    exact h.front hs.past.past b hb

theorem whole (h : Tiling n cs tokens) : ∃ gaps : List (List Char), gaps.length = tokens.length ∧
    (∀ w ∈ gaps, w ∈ gap) ∧ cs = (gaps.zip tokens).flatMap fun x => x.1 ++ x.2.spelling := by
  induction h with
  | ending hw hkind => exact ⟨[_], rfl, by simpa using hw, by simp [Token.spelling, hkind]⟩
  | token hw _ hkind htext _ _ _ ih =>
    obtain ⟨gaps, hlength, hgaps, rfl⟩ := ih
    refine ⟨_ :: gaps, by simp [hlength], List.forall_mem_cons.2 ⟨hw, hgaps⟩, ?_⟩
    simp [Token.spelling, hkind, htext]

end Tiling

/-- **The tokens tile the source**, where its offsets fit a word. -/
theorem tokens_tile_the_source {file : String} (hsize : source.utf8ByteSize < 2 ^ 32)
    (h : tokenize source file = .ok tokens) : Tiles source tokens := by
  rw [utf8ByteSize_eq, ← Nat.zero_add (byteLength _)] at hsize
  obtain ⟨found, rfl, hfound⟩ := tiling_scan (r := .ofSource source file) hsize h
  have hs := readsFrom_zero source
  exact ⟨hfound.ends hs, hfound.spelled hs, hfound.ordered, hfound.front hs, hfound.between hs,
    hfound.whole⟩

/-- Characters of more than one byte, in a comment and in a string. -/
theorem tokens_tile_umlauts :
    "\x7bé\x7d a'ü'".utf8ByteSize < 2 ^ 32 ∧
      tokenize "\x7bé\x7d a'ü'" "" = .ok [⟨.identifier, "a", none, 1, ⟨"", 5⟩, ⟨"", 6⟩⟩,
        ⟨.string, "'ü'", some (.string "ü"), 1, ⟨"", 6⟩, ⟨"", 10⟩⟩, .endAt 1 ⟨"", 10⟩] ∧
      Tiles "\x7bé\x7d a'ü'" [⟨.identifier, "a", none, 1, ⟨"", 5⟩, ⟨"", 6⟩⟩,
        ⟨.string, "'ü'", some (.string "ü"), 1, ⟨"", 6⟩, ⟨"", 10⟩⟩, .endAt 1 ⟨"", 10⟩] := by
  have hsize : "\x7bé\x7d a'ü'".utf8ByteSize < 2 ^ 32 := by decide +kernel
  have htokens : tokenize "\x7bé\x7d a'ü'" "" = .ok [⟨.identifier, "a", none, 1, ⟨"", 5⟩, ⟨"", 6⟩⟩,
      ⟨.string, "'ü'", some (.string "ü"), 1, ⟨"", 6⟩, ⟨"", 10⟩⟩, .endAt 1 ⟨"", 10⟩] := by cbv
  exact ⟨hsize, htokens, tokens_tile_the_source hsize htokens⟩

end PascalBlock
