import PascalBlock.Proofs.Token.Walk

/-!
# Texts that are joined at a gap

Two texts that have tokens are joined with a gap between them. What the scan takes of the first one
does not change, since no lexeme goes on into the gap: a string that closes before the end of its
text could only go on with a quote, and another string would begin there. Main result: the tokens
of the whole are those of the first text and then those of the second one, farther back. Offsets and
lines are added up in words of 32 bits, which is as in plain numbers below `2 ^ 32` bytes; the one
text to which this does not apply is that of `2 ^ 32 - 1` line feeds, whose end is on line zero.
-/

namespace PascalBlock

open Text Splitter LexemeClass
open scoped Computability

variable {r r' : Reader} {c d : LexemeClass} {t : Token} {ts : List Token} {n : Nat} {text : String}
  {piece rest more w x y z : List Char} {found : Option Token}

/-! ## What opens a gap -/

/-- A blank, or the character that opens a comment. -/
def opensGap (c : Char) : Bool := Unicode.isWhiteSpace c || c == '\x7b'

theorem exists_opensGap (hw : w ∈ gap) (hne : w ≠ []) :
    ∃ a v, w = a :: v ∧ opensGap a = true := by
  obtain ⟨pieces, rfl, hpieces⟩ := Language.mem_kstar_iff_exists_nonempty.1 hw
  cases pieces with
  | nil => exact absurd rfl hne
  | cons u us =>
    rcases (Language.mem_add _ _ u).1 (hpieces u List.mem_cons_self).1 with ⟨a, ha, rfl⟩ | hu
    · exact ⟨a, us.flatten, rfl, by simp [opensGap, ha]⟩
    · obtain ⟨a, v, ha, -, rfl⟩ := mem_ofClass_mul.1 hu
      exact ⟨a, v ++ us.flatten, rfl, by rw [eq_of_beq ha]; rfl⟩

namespace LexemeClass

theorem IsGraphic.not_opensGap {a : Char} (h : IsGraphic a) : opensGap a = false := by
  have hbrace : a ≠ '\x7b' := by
    rintro rfl
    exact absurd h.2 (by decide)
  have hblank := isWhiteSpace_of_graphic h.1 (Nat.le_trans h.2 (by decide))
  simp [opensGap, hblank, hbrace]

/-! ## Lexemes that one another begins -/

/-- Nothing behind a comment makes it longer. -/
theorem comment_split?_append (hx : x ∈ comment.language) (rest : List Char) :
    comment.split? (x ++ rest) = some (x, rest) := by
  obtain ⟨a, v, ha, hv, rfl⟩ := mem_ofClass_mul.1 hx
  obtain ⟨u, hu, _, ⟨b, hb, rfl⟩, rfl⟩ := Language.mem_mul.1 hv
  have hclose : (many (· != '\x7d')).andThen (one (· == '\x7d')) (u ++ b :: rest) =
      some (u ++ [b], rest) := by
    refine andThen_eq (many_append (mem_kstar_ofClass.1 hu) (stops_cons.2 ?_)) ?_
    · simpa using hb
    · simp [one, eq_of_beq hb]
  have hopen (cs : List Char) : one (· == '\x7b') (a :: cs) = some ([a], cs) := by
    simp [one, eq_of_beq ha]
  rw [split?]
  simpa using andThen_eq (hopen _) hclose

theorem next?_comment (hx : x ∈ comment.language) (rest : List Char) :
    next? (x ++ rest) = some (.comment, x, rest) := by
  have hsplit := comment_split?_append hx rest
  obtain ⟨a, v, ha, -, rfl⟩ := mem_ofClass_mul.1 hx
  have hblank : blank.split? (a :: v ++ rest) = none :=
    many1_eq_none (stops_cons.2 (by rw [eq_of_beq ha]; rfl))
  simp only [next?, all, List.cons_append, List.findSome?_cons] at hblank hsplit ⊢
  simp [hblank, hsplit]

/-- No comment begins another. -/
theorem eq_of_mem_comment (hx : x ∈ comment.language) (hy : y ∈ comment.language)
    (hp : x <+: y) : x = y := by
  obtain ⟨t, rfl⟩ := hp
  obtain ⟨u, rest, hu, hle⟩ := (takesLongest_split? .comment).covers hy (List.prefix_refl _)
  rw [comment_split?_append hx] at hu
  obtain ⟨rfl, -⟩ := Prod.mk.inj (Option.some.inj hu)
  exact (hle.eq_of_length (Nat.le_antisymm hle.length_le (by simp))).symm

/-- The rest of a string, by what it begins with. -/
@[elab_as_elim]
theorem stringTail_induction {P : List Char → Prop} (close : P ['\''])
    (char : ∀ a v, a ≠ '\'' → P v → P (a :: v)) (pair : ∀ v, P v → P ('\'' :: '\'' :: v)) :
    ∀ x, x ∈ stringTail.language → P x := by
  intro x hx
  rcases mem_stringTail.1 hx with rfl | ⟨a, v, ha, hv, rfl⟩ | ⟨v, hv, rfl⟩
  · exact close
  · exact char a v ha (stringTail_induction close char pair v hv)
  · exact pair v (stringTail_induction close char pair v hv)
termination_by x => x.length

/-- Behind a string the next one goes on with it: between them stands a quote written twice. -/
theorem append_mem_string (hx : x ∈ LexemeClass.string.language)
    (hy : y ∈ LexemeClass.string.language) : x ++ y ∈ LexemeClass.string.language := by
  obtain ⟨a, u, ha, hu, rfl⟩ := mem_ofClass_mul.1 hx
  obtain ⟨b, v, hb, hv, rfl⟩ := mem_ofClass_mul.1 hy
  obtain rfl : b = '\'' := eq_of_beq hb
  refine mem_ofClass_mul.2 ⟨a, u ++ '\'' :: v, ha, ?_, rfl⟩
  refine stringTail_induction (P := fun u => u ++ '\'' :: v ∈ stringTail.language) ?_ ?_ ?_ u hu
  · exact mem_stringTail.2 (.inr (.inr ⟨v, hv, rfl⟩))
  · exact fun d w hd hw => mem_stringTail.2 (.inr (.inl ⟨d, _, hd, hw, rfl⟩))
  · exact fun w hw => mem_stringTail.2 (.inr (.inr ⟨_, hw, rfl⟩))

/-- A string that begins another goes on there with a quote. -/
theorem quote_of_append_mem_string (hx : x ∈ LexemeClass.string.language)
    (hz : x ++ z ∈ LexemeClass.string.language) : ∀ a ∈ z.head?, a = '\'' := by
  obtain ⟨b, u, -, hu, rfl⟩ := mem_ofClass_mul.1 hx
  obtain ⟨_, _, -, hz, h⟩ := mem_ofClass_mul.1 hz
  obtain ⟨rfl, rfl⟩ := List.cons.inj h
  revert hz
  refine stringTail_induction
    (P := fun u => u ++ z ∈ stringTail.language → ∀ a ∈ z.head?, a = '\'') ?_ ?_ ?_ u hu
  · intro hz
    rcases mem_stringTail.1 hz with h | ⟨d, w, hd, -, h⟩ | ⟨w, -, h⟩
    · simp_all
    · exact absurd (List.cons.inj h).1.symm hd
    · simp_all
  · intro d w hd ih hz
    rcases mem_stringTail.1 hz with h | ⟨e, v, -, hv, h⟩ | ⟨v, -, h⟩
    · exact absurd (List.cons.inj h).1 hd
    · obtain ⟨-, rfl⟩ := List.cons.inj h
      exact ih hv
    · exact absurd (List.cons.inj h).1 hd
  · intro w ih hz
    rcases mem_stringTail.1 hz with h | ⟨e, v, he, -, h⟩ | ⟨v, hv, h⟩
    · cases h
    · exact absurd (List.cons.inj h).1.symm he
    · obtain ⟨-, rfl⟩ := List.cons.inj (List.cons.inj h).2
      exact ih hv

/-! ## Lexemes in front of a gap -/

/-- A lexeme in front of more text is the longest there too, where a gap opens at the end of the
text and some class fits on from the lexeme up to there. -/
theorem next?_append (hnext : next? (piece ++ rest) = some (c, piece, rest)) (hc : c ≠ blank)
    (hrest : rest = [] ∨ ∃ d x behind, next? rest = some (d, x, behind))
    (hmore : ∀ a ∈ more.head?, opensGap a = true) :
    next? (piece ++ (rest ++ more)) = some (c, piece, rest ++ more) := by
  obtain ⟨hmem, hpiece, hlongest⟩ := next?_append_eq_some_iff.1 hnext
  refine next?_append_eq_some_iff.2 ⟨hmem, hpiece, fun d hd y hy hp => ?_⟩
  rw [← List.append_assoc] at hp
  rcases List.prefix_or_prefix_of_prefix hp (List.prefix_append _ more) with hle | ⟨w, rfl⟩
  · exact hlongest d hd y hy hle
  rw [List.prefix_append_right_inj] at hp
  rw [List.append_assoc] at hy ⊢
  cases w with
  | nil => exact hlongest d hd _ hy (by simp)
  | cons a v =>
    -- such a lexeme goes on into the gap
    have ha : opensGap a = true := by
      obtain ⟨t, rfl⟩ := hp
      exact hmore a rfl
    have hinitial : c.initial = d.initial := by
      by_contra hne
      exact apart_of_initial hmem hd hne piece hpiece _ hy (by simp)
    cases d with
    | blank => exact absurd (eq_of_initial_eq (by simp) hinitial) hc
    | comment =>
      obtain rfl := eq_of_initial_eq (by simp) hinitial
      rw [← eq_of_mem_comment hpiece hy (List.prefix_append _ _)]
    | string =>
      obtain rfl := eq_of_initial_eq (by simp) hinitial
      have hquote := quote_of_append_mem_string hpiece hy
      rcases hrest with rfl | ⟨e, x, behind, hx⟩
      · rw [hquote a rfl] at ha
        cases ha
      · -- then another string follows, and both together are longer
        obtain ⟨he, hsplit⟩ := next?_eq_some hx
        have hmem' := (takesLongest_split? e).mem hsplit
        obtain rfl := append_of_next? hx
        obtain ⟨b, u, rfl, hb⟩ := initial_of_mem he hmem'
        obtain rfl := hquote b rfl
        have hinitialOf : initialOf '\'' = string.initial := by decide
        obtain rfl := eq_of_initial_eq (by simp) (hb.symm.trans hinitialOf)
        have hboth := hlongest _ hd _ (append_mem_string hpiece hmem') (by simp)
        simp at hboth
    | _ =>
      have hgraphic := isGraphic_of_mem hd (by simp) hy a (by simp)
      rw [hgraphic.not_opensGap] at ha
      cases ha

end LexemeClass

namespace Reader

/-- A walk to the end of a text is also one up to a gap that opens there. -/
theorem Walk.scans_on (h : Walk r ts r') (hend : r'.rest = [])
    (hmore : ∀ a ∈ more.head?, opensGap a = true) :
    (r.inFrontOf (r.rest ++ more)).Scans ts (r'.inFrontOf more) := by
  induction h with
  | refl r =>
    rw [hend]
    exact .refl _
  | @step r r' c piece rest found ts hnext htoken walk ih =>
    refine Scans.trans ?_ (ih hend)
    have hsplit := append_of_next? hnext
    have htext : (r.inFrontOf (r.rest ++ more)).rest = piece ++ (rest ++ more) := by
      rw [inFrontOf_rest, ← hsplit, List.append_assoc]
    obtain rfl | hne := eq_or_ne c .blank
    · -- blanks have no token, and they may go on into the gap
      obtain rfl := Except.ok.inj htoken
      have hpiece := (takesLongest_split? .blank).mem (next?_eq_some hnext).2
      obtain ⟨b, v, hb, hv, rfl⟩ := mem_ofClass_mul.1 hpiece
      exact scans_blanks htext (List.forall_mem_cons.2 ⟨hb, mem_kstar_ofClass.1 hv⟩)
    · have htoken' : c.token? (r.inFrontOf (r.rest ++ more)) piece = .ok found := by
        rw [token?_inFrontOf, htoken]
      rw [← hsplit] at hnext
      exact scans_found (htext ▸ next?_append hnext hne (walk.eq_nil_or_next? hend) hmore) htoken'

/-- A gap has no tokens. -/
theorem scans_gap (hw : w ∈ gap) : ∀ {r : Reader}, r.rest = w ++ rest →
    r.Scans [] (r.past w rest) := by
  obtain ⟨pieces, rfl, hpieces⟩ := Language.mem_kstar.1 hw
  clear hw
  induction pieces with
  | nil =>
    intro r hr
    exact (past_nil hr).symm ▸ Scans.refl r
  | cons u us ih =>
    intro r hr
    rw [List.forall_mem_cons] at hpieces
    rw [List.flatten_cons, List.append_assoc] at hr
    have hus := ih hpieces.2 (r := r.past u (us.flatten ++ rest)) rfl
    rw [past_past] at hus
    rcases (Language.mem_add _ _ u).1 hpieces.1 with ⟨b, hb, rfl⟩ | hu
    · exact (scans_blanks hr (by simpa using hb)).trans hus
    · exact (scans_nothing (c := .comment) (hr ▸ next?_comment hu _) rfl).trans hus

end Reader

/-! ## Behind another text -/

/-- The position `n` bytes farther back. -/
def Position.back (n : Nat) (p : Position) : Position := { p with offset := p.offset + .ofNat n }

/-- The token as it stands behind `text`. -/
def Token.behind (text : String) (t : Token) : Token :=
  { t with
    line := t.line + .ofNat (newlines text.toList)
    start := t.start.back text.utf8ByteSize
    stop := t.stop.back text.utf8ByteSize }

namespace Reader

/-- The reader as it stands behind `text`. -/
def behind (text : String) (r : Reader) : Reader :=
  { r with
    offset := r.offset + text.utf8ByteSize
    line := r.line + .ofNat (newlines text.toList) }

theorem past_behind : (r.behind text).past piece rest = (r.past piece rest).behind text := by
  simp only [past, behind, Nat.add_right_comm, UInt32.add_assoc,
    UInt32.add_comm (.ofNat (newlines text.toList))]

theorem token_behind (kind : TokenKind) (literal : Option Literal) :
    (r.behind text).token kind piece literal = (r.token kind piece literal).behind text := by
  simp only [token, span, behind, Token.behind, Position.back,
    Nat.add_right_comm _ text.utf8ByteSize, UInt32.ofNat_add]

theorem endToken_behind : (r.behind text).endToken = r.endToken.behind text := by
  simp [endToken, position, span, Token.endAt, behind, Token.behind, Position.back]

theorem token?_behind (h : c.token? r piece = .ok found) :
    c.token? (r.behind text) piece = .ok (found.map (Token.behind text)) := by
  cases c with
  | blank | comment | word | string | symbol =>
    obtain rfl := Except.ok.inj h
    simp [LexemeClass.token?, token_behind]
  | real | integer =>
    simp only [LexemeClass.token?] at h ⊢
    split at h
    · next hvalue =>
      obtain rfl := Except.ok.inj h
      simp [hvalue, token_behind]
    · cases h

theorem Walk.behind (h : Walk r ts r') (text : String) :
    Walk (r.behind text) (ts.map (Token.behind text)) (r'.behind text) := by
  induction h with
  | refl r => exact .refl _
  | @step r r' c piece rest found ts hnext htoken walk ih =>
    rw [← past_behind] at ih
    have h := Walk.step (r := r.behind text) hnext (token?_behind htoken) ih
    rwa [Option.toList_map, ← List.map_append] at h

end Reader

open Reader

/-! ## Words of 32 bits -/

theorem toNat_ofNat_le (n : Nat) : (UInt32.ofNat n).toNat ≤ n := by
  rw [UInt32.toNat_ofNat']
  exact Nat.mod_le _ _

/-- Words are added up as plain numbers are where the sum fits. -/
theorem toNat_add_ofNat {i : UInt32} (h : i.toNat + n < 2 ^ 32) :
    (i + .ofNat n).toNat = i.toNat + n := by
  rw [UInt32.toNat_add, UInt32.toNat_ofNat', Nat.mod_eq_of_lt (a := n) (by omega),
    Nat.mod_eq_of_lt h]

/-! ## Texts that are joined -/

variable {a b gapText file : String} {as bs : List Token} {e : Token}

/-- The tokens of two texts with a gap between them, whatever their size. -/
theorem tokenize_append (ha : tokenize a file = .ok (ts ++ [e])) (hb : tokenize b file = .ok bs)
    (hw : gapText.toList ∈ gap) (hne : gapText ≠ "") :
    tokenize (a ++ gapText ++ b) file = .ok (ts ++ bs.map (Token.behind (a ++ gapText))) := by
  obtain ⟨found, r, walk, hend, hts⟩ := walk_of_tokenize ha
  obtain ⟨more, r', walk', hend', rfl⟩ := walk_of_tokenize hb
  obtain ⟨rfl, -⟩ := List.append_inj' hts rfl
  have hgap : ∀ c ∈ (gapText.toList ++ b.toList).head?, opensGap c = true := by
    obtain ⟨c, v, hcv, hc⟩ := exists_opensGap hw (by simpa using hne)
    simpa [hcv] using hc
  -- the reader behind the first text, and the one behind the gap
  obtain ⟨text, htext, hr⟩ := walk.exists_text
  rw [hend, List.append_nil] at htext
  obtain rfl : a.toList = text := htext
  have hwhole : Reader.ofSource (a ++ gapText ++ b) file = (Reader.ofSource a file).inFrontOf
      ((Reader.ofSource a file).rest ++ (gapText.toList ++ b.toList)) := by
    simp [ofSource, inFrontOf]
  have hsecond : (r.inFrontOf (gapText.toList ++ b.toList)).past gapText.toList b.toList =
      (Reader.ofSource b file).behind (a ++ gapText) := by
    rw [hr]
    simp [past, inFrontOf, behind, ofSource, newlines_append, utf8ByteSize_eq, byteLength_append,
      UInt32.add_assoc]
  have hfirst := (walk.scans_on hend hgap).trans (scans_gap hw rfl)
  rw [tokenize, hwhole, hfirst, hsecond, (walk'.behind (a ++ gapText)).scans,
    scan_end (by exact hend'), endToken_behind]
  simp

/-- No token of a source stands beyond its end. -/
theorem le_size_of_mem (h : tokenize a file = .ok as) (ht : t ∈ as) :
    t.start.offset.toNat ≤ a.utf8ByteSize ∧ t.stop.offset.toNat ≤ a.utf8ByteSize ∧
      t.line.toNat ≤ 1 + newlines a.toList := by
  obtain ⟨before, behind, hsource, hplace, ⟨rest, rfl⟩, -⟩ := place_of_tokenize h ht
  have hsize : a.utf8ByteSize =
      byteLength before + (byteLength t.spelling + byteLength rest) := by
    rw [utf8ByteSize_eq, hsource, byteLength_append, byteLength_append]
  have hlines : newlines a.toList = newlines before + newlines (t.spelling ++ rest) := by
    rw [hsource, newlines_append]
  rw [hplace.start_eq, hplace.stop, hplace.line_eq, byteLength_append]
  refine ⟨(toNat_ofNat_le _).trans (by omega), (toNat_ofNat_le _).trans ?_,
    (toNat_ofNat_le _).trans (by omega)⟩
  simp only [ofSource]
  omega

/-- The number of lines fits a word if that of the bytes does, but for one text. -/
theorem newlines_lt_of_ne_feeds (hsize : a.utf8ByteSize < 2 ^ 32)
    (hne : a ≠ feeds (2 ^ 32 - 1)) : 1 + newlines a.toList < 2 ^ 32 := by
  rw [utf8ByteSize_eq] at hsize
  have hle := newlines_le_byteLength a.toList
  refine Nat.lt_of_not_le fun hmany => hne ?_
  have hbytes : byteLength a.toList = 2 ^ 32 - 1 := by omega
  have ha : a.toList = List.replicate (byteLength a.toList) '\n' :=
    eq_replicate_of_byteLength_le (by omega)
  rw [feeds, ← hbytes, ← ha, String.ofList_toList]

/-- **A gap joins the tokens of two texts**, where the offsets fit a word: behind those of the first
text, without its end, come those of the second one as they stand behind the first and the gap. The
lines fit a word too, unless the whole is nothing but `2 ^ 32 - 1` line feeds. -/
theorem tokens_are_joined {a b w file : String} {as bs : List Token}
    (ha : tokenize a file = .ok as) (hb : tokenize b file = .ok bs) (hw : w.toList ∈ gap)
    (hne : w ≠ "") (hsize : (a ++ w ++ b).utf8ByteSize < 2 ^ 32) :
    ∃ found e, as = found ++ [e] ∧ (∀ t ∈ found, t.kind ≠ .endOfText) ∧ e.kind = .endOfText ∧
      tokenize (a ++ w ++ b) file = .ok (found ++ bs.map (Token.behind (a ++ w))) ∧
      ∀ t ∈ bs,
        (t.behind (a ++ w)).start.offset.toNat =
          t.start.offset.toNat + (a ++ w).utf8ByteSize ∧
        (t.behind (a ++ w)).stop.offset.toNat = t.stop.offset.toNat + (a ++ w).utf8ByteSize ∧
        (a ++ w ++ b ≠ feeds (2 ^ 32 - 1) →
          (t.behind (a ++ w)).line.toNat = t.line.toNat + newlines (a ++ w).toList) := by
  obtain ⟨found, r, walk, hend, rfl⟩ := walk_of_tokenize ha
  refine ⟨found, r.endToken, rfl, fun t ht => ?_, rfl, tokenize_append ha hb hw hne,
    fun t ht => ?_⟩
  · obtain ⟨_, _, _, _, kind, _, -, -, -, -, rfl, hkind⟩ := walk.exists_of_mem ht
    exact hkind
  · obtain ⟨hstart, hstop, hline⟩ := le_size_of_mem hb ht
    have hsum : (a ++ w ++ b).utf8ByteSize = (a ++ w).utf8ByteSize + b.utf8ByteSize := by simp
    refine ⟨toNat_add_ofNat (by omega), toNat_add_ofNat (by omega), fun hfeeds => ?_⟩
    have hlines := newlines_lt_of_ne_feeds hsize hfeeds
    rw [String.toList_append, newlines_append] at hlines
    exact toNat_add_ofNat (by omega)

/-- A string that ends a text, a comment and a line feed, and a string that begins the next text. -/
theorem strings_are_joined :
    tokenize "a'b'" "" = .ok [⟨.identifier, "a", none, 1, ⟨"", 0⟩, ⟨"", 1⟩⟩,
        ⟨.string, "'b'", some (.string "b"), 1, ⟨"", 1⟩, ⟨"", 4⟩⟩, .endAt 1 ⟨"", 4⟩] ∧
      tokenize "'c'" "" = .ok [⟨.string, "'c'", some (.string "c"), 1, ⟨"", 0⟩, ⟨"", 3⟩⟩,
        .endAt 1 ⟨"", 3⟩] ∧
      "\x7b'\n\x7d".toList ∈ gap ∧ "\x7b'\n\x7d" ≠ "" ∧
      ("a'b'" ++ "\x7b'\n\x7d" ++ "'c'").utf8ByteSize < 2 ^ 32 ∧
      tokenize ("a'b'" ++ "\x7b'\n\x7d" ++ "'c'") "" =
        .ok [⟨.identifier, "a", none, 1, ⟨"", 0⟩, ⟨"", 1⟩⟩,
          ⟨.string, "'b'", some (.string "b"), 1, ⟨"", 1⟩, ⟨"", 4⟩⟩,
          ⟨.string, "'c'", some (.string "c"), 2, ⟨"", 8⟩, ⟨"", 11⟩⟩, .endAt 2 ⟨"", 11⟩] := by
  have ha : tokenize "a'b'" "" = .ok [⟨.identifier, "a", none, 1, ⟨"", 0⟩, ⟨"", 1⟩⟩,
      ⟨.string, "'b'", some (.string "b"), 1, ⟨"", 1⟩, ⟨"", 4⟩⟩,
      .endAt 1 ⟨"", 4⟩] := by decide +kernel
  have hb : tokenize "'c'" "" = .ok [⟨.string, "'c'", some (.string "c"), 1, ⟨"", 0⟩, ⟨"", 3⟩⟩,
      .endAt 1 ⟨"", 3⟩] := by decide +kernel
  have hw : "\x7b'\n\x7d".toList ∈ gap := by
    refine comment_mem_gap (mem_ofClass_mul.2 ⟨'\x7b', _, rfl, Language.mem_mul.2 ?_, rfl⟩)
    refine ⟨['\'', '\n'], mem_kstar_ofClass.2 (by simp), ['\x7d'], ⟨'\x7d', rfl, rfl⟩, rfl⟩
  have hne : "\x7b'\n\x7d" ≠ "" := by decide
  have hsize : ("a'b'" ++ "\x7b'\n\x7d" ++ "'c'").utf8ByteSize < 2 ^ 32 := by decide +kernel
  obtain ⟨found, e, has, -, -, h, -⟩ := tokens_are_joined ha hb hw hne hsize
  have hfound : [⟨.identifier, "a", none, 1, ⟨"", 0⟩, ⟨"", 1⟩⟩,
      ⟨.string, "'b'", some (.string "b"), 1, ⟨"", 1⟩, ⟨"", 4⟩⟩] ++ [.endAt 1 ⟨"", 4⟩] =
        found ++ [e] := has
  obtain rfl := (List.append_inj' hfound rfl).1
  exact ⟨ha, hb, hw, hne, hsize, h⟩

/-! ## Line feeds between two texts -/

theorem feeds_mem_gap (n : Nat) : (feeds n).toList ∈ gap := by
  refine blanks_mem_gap fun c hc => ?_
  rw [feeds, String.toList_ofList] at hc
  rw [List.eq_of_mem_replicate hc]
  rfl

theorem newlines_feeds (n : Nat) : newlines (feeds n).toList = n := by
  rw [feeds, String.toList_ofList, newlines, List.count_replicate_self]

theorem utf8ByteSize_feeds (n : Nat) : (feeds n).utf8ByteSize = n := by
  rw [utf8ByteSize_eq, feeds, String.toList_ofList]
  induction n with
  | zero => rfl
  | succ n ih =>
    rw [List.replicate_succ, byteLength, ih, Nat.add_comm]
    rfl

theorem feeds_ne_empty (hn : n ≠ 0) : feeds n ≠ "" := by
  intro h
  have hsize := utf8ByteSize_feeds n
  rw [h] at hsize
  exact hn hsize.symm

/-- Behind line feeds a token is as many bytes farther back as it is lines farther down. -/
theorem Token.behind_feeds (text : String) (n : Nat) (t : Token) : t.behind (text ++ feeds n) =
    { t with
      line := t.line + .ofNat (newlines text.toList + n)
      start := t.start.back (text.utf8ByteSize + n)
      stop := t.stop.back (text.utf8ByteSize + n) } := by
  rw [Token.behind, String.toList_append, newlines_append, newlines_feeds,
    String.utf8ByteSize_append, utf8ByteSize_feeds]

theorem tokenize_empty (file : String) : tokenize "" file = .ok [.endAt 1 ⟨file, 0⟩] :=
  tokenize_of_walk (.refl _) rfl

/-- A source of line feeds has a token at its end only. -/
theorem tokenize_feeds (hn : n ≠ 0) (file : String) :
    tokenize (feeds n) file = .ok [.endAt (1 + .ofNat n) ⟨file, .ofNat n⟩] := by
  have hempty : tokenize "" file = .ok ([] ++ [.endAt 1 ⟨file, 0⟩]) := tokenize_empty file
  have h := tokenize_append hempty (tokenize_empty file) (feeds_mem_gap n) (feeds_ne_empty hn)
  rw [List.nil_append, List.map_singleton, Token.behind_feeds, String.empty_append,
    String.append_empty] at h
  simpa [Token.endAt, Position.back, newlines] using h

/-- Between two empty texts `2 ^ 32 - 1` line feeds are no longer counted. -/
theorem joined_lines_start_again :
    tokenize "" "" = .ok [.endAt 1 ⟨"", 0⟩] ∧ (feeds (2 ^ 32 - 1)).toList ∈ gap ∧
      feeds (2 ^ 32 - 1) ≠ "" ∧ ("" ++ feeds (2 ^ 32 - 1) ++ "").utf8ByteSize < 2 ^ 32 ∧
      ∃ e, tokenize ("" ++ feeds (2 ^ 32 - 1) ++ "") "" = .ok [e] ∧
        e.line.toNat ≠ 1 + newlines ("" ++ feeds (2 ^ 32 - 1)).toList := by
  rw [String.empty_append, String.append_empty, utf8ByteSize_feeds, newlines_feeds]
  refine ⟨tokenize_empty "", feeds_mem_gap _, feeds_ne_empty (by decide), by decide,
    _, tokenize_feeds (by decide) "", by decide⟩

end PascalBlock
