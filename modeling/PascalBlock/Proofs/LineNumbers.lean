import PascalBlock.CommandLine
import PascalBlock.Proofs.Parser.Containment
import PascalBlock.Proofs.Text.Line
import PascalBlock.Proofs.Token.Failure
import PascalBlock.Proofs.Token.Joining

/-!
# Line numbers agree

Lines are counted in three places: the scan counts them as it goes, the report of an error looks
for the line of an offset, and the summary counts the lines of the source. Main result: they agree
on every token and on every error, also where the text ends with a line feed; and so every error is
shown with its source line. The scan counts in a word of 32 bits, and of all sources of less than
`2 ^ 32` bytes one has more lines than such a word holds: the one of `2 ^ 32 - 1` line feeds.
-/

namespace PascalBlock

open Text Reader

variable {source file : String} {before behind : List Char} {tokens : List Token} {t e : Token}
  {d : Diagnostic}

/-! ## The line of a place in a source -/

theorem number_lineAt (h : source.toList = before ++ behind) (hne : behind ≠ []) :
    (lineAt source (byteLength before)).map Line.number = some (1 + newlines before) := by
  obtain ⟨x, behind, rfl⟩ := List.exists_cons_of_ne_nil hne
  rw [lineAt, h, locate_of_append]

theorem number_lineAt_end (hne : source ≠ "") :
    ((lineAt source source.utf8ByteSize).map Line.number).map (· + endingFeed source.toList) =
      some (1 + newlines source.toList) := by
  rw [lineAt, utf8ByteSize_eq, locate_of_end (by simpa using hne)]

theorem lineAt_empty (offset : Nat) : lineAt "" offset = none := rfl

/-- A place in a source that is not empty has a line. -/
theorem exists_lineAt (h : source.toList = before ++ behind) (hne : source ≠ "") :
    ∃ line, lineAt source (byteLength before) = some line := by
  by_cases hbehind : behind = []
  · rw [hbehind, List.append_nil] at h
    have hend := number_lineAt_end hne
    rw [utf8ByteSize_eq, h, Option.map_map, Option.map_eq_some_iff] at hend
    obtain ⟨line, hline, -⟩ := hend
    exact ⟨line, hline⟩
  · obtain ⟨line, hline, -⟩ := Option.map_eq_some_iff.1 (number_lineAt h hbehind)
    exact ⟨line, hline⟩

/-! ## Tokens -/

/-- The token is on the line `n` of the source. Its line is a word, and the one at the end of
`2 ^ 32 - 1` line feeds does not fit. -/
def Token.OnLine (source : String) (t : Token) (n : Nat) : Prop :=
  t.line = .ofNat n ∧ (t.kind ≠ .endOfText ∨ source ≠ feeds (2 ^ 32 - 1) → t.line.toNat = n)

/-- The token starts behind `before`, on the line that the line feeds in it tell. -/
def Token.StartsBehind (source : String) (before : List Char) (t : Token) : Prop :=
  t.start.offset.toNat = byteLength before ∧ t.OnLine source (1 + newlines before)

/-- Every token starts where its reader stands, and only the one at the end has nothing behind. -/
theorem startsBehind_of_tokenize (hsize : source.utf8ByteSize < 2 ^ 32)
    (h : tokenize source file = .ok tokens) (ht : t ∈ tokens) :
    ∃ before behind, source.toList = before ++ behind ∧ t.StartsBehind source before ∧
      (behind = [] ↔ t.kind = .endOfText) := by
  obtain ⟨before, behind, hsource, hplace, -, hbehind⟩ := place_of_tokenize h ht
  have hbytes : byteLength before + byteLength behind < 2 ^ 32 := by
    rwa [utf8ByteSize_eq, hsource, byteLength_append] at hsize
  have hfits : t.kind ≠ .endOfText ∨ source ≠ feeds (2 ^ 32 - 1) →
      1 + newlines before < 2 ^ 32 := by
    rintro (hk | hne)
    · -- the token itself takes up a byte
      have hpos := byteLength_pos (mt hbehind.1 hk)
      have hle := newlines_le_byteLength before
      omega
    · have hlines := newlines_lt_of_ne_feeds hsize hne
      rw [hsource, newlines_append] at hlines
      omega
  refine ⟨before, behind, hsource, ⟨?_, hplace.line_eq, fun hexact => ?_⟩, hbehind⟩
  · rw [hplace.start_eq, toNat_offset hsize hsource]
  · rw [hplace.line_eq]
    exact UInt32.toNat_ofNat_of_lt' (hfits hexact)

theorem number_lineAt_start (hsize : source.utf8ByteSize < 2 ^ 32)
    (h : tokenize source file = .ok tokens) (ht : t ∈ tokens) (hk : t.kind ≠ .endOfText) :
    (lineAt source t.start.offset.toNat).map Line.number = some t.line.toNat := by
  obtain ⟨before, behind, hsource, ⟨hstart, -, hline⟩, hbehind⟩ :=
    startsBehind_of_tokenize hsize h ht
  rw [hstart, hline (.inl hk), number_lineAt hsource (mt hbehind.1 hk)]

theorem endsBehind_of_tokenize (hsize : source.utf8ByteSize < 2 ^ 32)
    (h : tokenize source file = .ok tokens) (he : e ∈ tokens) (hk : e.kind = .endOfText) :
    e.start.offset.toNat = source.utf8ByteSize ∧
      e.OnLine source (1 + newlines source.toList) := by
  obtain ⟨before, behind, hsource, ⟨hstart, hline⟩, hbehind⟩ := startsBehind_of_tokenize hsize h he
  rw [hbehind.2 hk, List.append_nil] at hsource
  rw [utf8ByteSize_eq, hsource]
  exact ⟨hstart, hline⟩

/-- All lines of a source, by where its end is counted. -/
theorem lineCount_eq (source : String) :
    CommandLine.lineCount source + (if source = "" then 1 else endingFeed source.toList) =
      1 + newlines source.toList := by
  have hlength := length_lines source.toList
  rw [CommandLine.lineCount]
  by_cases hempty : source = ""
  · subst hempty
    rfl
  · simp only [hempty, if_false, String.toList_eq_nil_iff] at hlength ⊢
    omega

/-! ## Diagnostics -/

/-- A parse of the tokens of a source has them all ahead. -/
theorem stream_of_tokenize (h : tokenize source file = .ok tokens) :
    (Cursor.ofTokens tokens file).stream = tokens := by
  obtain ⟨ts, r, -, -, rfl⟩ := walk_of_tokenize h
  have hcursor : Cursor.ofTokens (ts ++ [r.endToken]) file =
      ⟨ts, r.endToken, ts.length, rfl, rfl⟩ := Cursor.ofTokens_concat ts rfl file
  rw [hcursor, Cursor.stream]

/-- What a parse flags it flags on one of its tokens, and where that starts. -/
theorem flagged_on_token (h : tokenize source file = .ok tokens)
    (hd : d ∈ (parse tokens file).after.log.entries.toList) :
    d.token ∈ tokens ∧ d.error.position = d.token.start := by
  have hread := readsProgram_parse tokens file
  have hmem : d.token ∈ (Cursor.ofTokens tokens file).stream :=
    hread.effect.prefix_stream.subset (hread.within d hd)
  rw [stream_of_tokenize h] at hmem
  exact ⟨hmem, hread.placed d hd⟩

/-- Nothing is flagged in an empty source. -/
theorem ne_empty_of_flagged (h : tokenize source file = .ok tokens)
    (hd : d ∈ (parse tokens file).after.log.entries.toList) : source ≠ "" := by
  rintro rfl
  obtain rfl := Except.ok.inj ((tokenize_empty file).symm.trans h)
  have hread := (readsProgram_parse [.endAt 1 ⟨file, 0⟩] file).unique (.nothing rfl)
  rw [hread.2.1] at hd
  cases hd

/-! ## Agreement -/

/-- The error is reported with a line of the source. -/
def Shown (source : String) (error : Error) (line : Line) : Prop :=
  lineAt source error.position.offset.toNat = some line ∧
    Report.render error source = Report.heading error ++ Report.excerpt line

theorem shown_of_lineAt {error : Error} {line : Line}
    (h : lineAt source error.position.offset.toNat = some line) : Shown source error line := by
  refine ⟨h, ?_⟩
  rw [Report.render, h]
  rfl

/-- What is flagged is shown, and on the line of its token, unless that is the end. -/
theorem shown_of_flagged (hsize : source.utf8ByteSize < 2 ^ 32)
    (h : tokenize source file = .ok tokens)
    (hd : d ∈ (parse tokens file).after.log.entries.toList) : ∃ line, Shown source d.error line ∧
      (d.token.kind ≠ .endOfText → line.number = d.token.line.toNat) := by
  obtain ⟨ht, hposition⟩ := flagged_on_token h hd
  by_cases hk : d.token.kind = .endOfText
  · obtain ⟨before, behind, hsource, ⟨hstart, -⟩, -⟩ := startsBehind_of_tokenize hsize h ht
    obtain ⟨line, hline⟩ := exists_lineAt hsource (ne_empty_of_flagged h hd)
    refine ⟨line, shown_of_lineAt ?_, fun hne => absurd hk hne⟩
    rw [hposition, hstart, hline]
  · obtain ⟨line, hline, hnumber⟩ :=
      Option.map_eq_some_iff.1 (number_lineAt_start hsize h ht hk)
    refine ⟨line, shown_of_lineAt ?_, fun _ => hnumber⟩
    rw [hposition, hline]

/-- The lines that the scan has counted are those that a search for the token comes to, and their
number is that of the summary. The end belongs to the last line, though the scan counts one more
behind a line feed; of all sources only that of `2 ^ 32 - 1` line feeds has its end on a line that a
word does not hold. -/
structure LinesAgree (source file : String) (tokens : List Token) : Prop where
  counted : ∀ t ∈ tokens, ∃ before behind, source.toList = before ++ behind ∧
    t.StartsBehind source before
  found : ∀ t ∈ tokens, t.kind ≠ .endOfText →
    (lineAt source t.start.offset.toNat).map Line.number = some t.line.toNat
  ending : ∃ e ∈ tokens, e.kind = .endOfText
  foundEnd : ∀ e ∈ tokens, e.kind = .endOfText →
    (lineAt source e.start.offset.toNat = none ↔ source = "") ∧
      ∀ line, lineAt source e.start.offset.toNat = some line →
        e.OnLine source (line.number + endingFeed source.toList)
  total : ∀ e ∈ tokens, e.kind = .endOfText →
    e.OnLine source
      (CommandLine.lineCount source + if source = "" then 1 else endingFeed source.toList)
  shown : ∀ d ∈ (parse tokens file).after.log.entries.toList, ∃ line,
    Shown source d.error line ∧ (d.token.kind ≠ .endOfText → line.number = d.token.line.toNat)

theorem linesAgree_of_tokenize (hsize : source.utf8ByteSize < 2 ^ 32)
    (h : tokenize source file = .ok tokens) : LinesAgree source file tokens where
  counted t ht := by
    obtain ⟨before, behind, hsource, hstarts, -⟩ := startsBehind_of_tokenize hsize h ht
    exact ⟨before, behind, hsource, hstarts⟩
  found t ht hk := number_lineAt_start hsize h ht hk
  ending := by
    obtain ⟨ts, r, -, -, rfl⟩ := walk_of_tokenize h
    exact ⟨r.endToken, by simp, rfl⟩
  foundEnd e he hk := by
    obtain ⟨hstart, hline⟩ := endsBehind_of_tokenize hsize h he hk
    rw [hstart]
    by_cases hempty : source = ""
    · subst hempty
      simp [lineAt_empty]
    · obtain ⟨number, hnumber, hfeed⟩ := Option.map_eq_some_iff.1 (number_lineAt_end hempty)
      obtain ⟨line, hfound, rfl⟩ := Option.map_eq_some_iff.1 hnumber
      rw [hfound]
      simp only [reduceCtorEq, hempty, Option.some.injEq, forall_eq', true_and]
      rwa [hfeed]
  total e he hk := by
    rw [lineCount_eq]
    exact (endsBehind_of_tokenize hsize h he hk).2
  shown d hd := shown_of_flagged hsize h hd

/-- **Line numbers agree**, where the offsets of the source fit a word: on the tokens and what is
flagged on them, and on the error of a source that has no tokens. -/
theorem line_numbers_agree (hsize : source.utf8ByteSize < 2 ^ 32) :
    (∀ tokens, tokenize source file = .ok tokens → LinesAgree source file tokens) ∧
      ∀ e, tokenize source file = .error e → ∃ line, Shown source e line := by
  refine ⟨fun tokens h => linesAgree_of_tokenize hsize h, fun e h => ?_⟩
  obtain ⟨before, behind, hsource, -, hoffset, -, hcause⟩ := failsAt_of_tokenize hsize h
  obtain ⟨line, hline, -⟩ := Option.map_eq_some_iff.1 (number_lineAt hsource hcause.ne_nil)
  exact ⟨line, shown_of_lineAt (hoffset ▸ hline)⟩

/-- A line feed in a string, and one at the end: the end is counted on a line that is not there. -/
theorem line_numbers_agree_twoLines :
    "'a\nb'\n".utf8ByteSize < 2 ^ 32 ∧
      tokenize "'a\nb'\n" "" = .ok [⟨.string, "'a\nb'", some (.string "a\nb"), 1, ⟨"", 0⟩, ⟨"", 5⟩⟩,
        .endAt 3 ⟨"", 6⟩] ∧
      LinesAgree "'a\nb'\n" "" [⟨.string, "'a\nb'", some (.string "a\nb"), 1, ⟨"", 0⟩, ⟨"", 5⟩⟩,
        .endAt 3 ⟨"", 6⟩] := by
  have hsize : "'a\nb'\n".utf8ByteSize < 2 ^ 32 := by decide +kernel
  have htokens : tokenize "'a\nb'\n" "" =
      .ok [⟨.string, "'a\nb'", some (.string "a\nb"), 1, ⟨"", 0⟩, ⟨"", 5⟩⟩,
        .endAt 3 ⟨"", 6⟩] := by cbv
  exact ⟨hsize, htokens, (line_numbers_agree hsize).1 _ htokens⟩

/-- Behind `2 ^ 32 - 1` line feeds the lines start again at zero. -/
theorem counted_lines_start_again :
    (feeds (2 ^ 32 - 1)).utf8ByteSize < 2 ^ 32 ∧
      ∃ e, tokenize (feeds (2 ^ 32 - 1)) "" = .ok [e] ∧
        e.start.offset.toNat = (feeds (2 ^ 32 - 1)).utf8ByteSize ∧
        e.line.toNat ≠ 1 + newlines (feeds (2 ^ 32 - 1)).toList := by
  rw [utf8ByteSize_feeds, newlines_feeds]
  exact ⟨by decide, _, tokenize_feeds (by decide) "", by decide, by decide⟩

end PascalBlock
