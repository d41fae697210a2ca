import PascalBlock.Proofs.LineNumbers
import PascalBlock.Proofs.Text.LetterCase

/-!
# Where the caret stands

The last two lines of a report show the source line and a caret. Main result: what the report of
any error of a source points at is a character that shows in that line, and the caret stands as many
columns behind the margin as there are bytes shown before the character. So it stands under the
character just when all that is shown before it takes one byte each; a letter with an accent moves
the caret to the right (`accent_moves_the_caret`).
-/

namespace PascalBlock

open Text

namespace Report

variable {c : Char} {before body feed above behind : List Char} {source : String} {e : Error}

/-! ## The shown line -/

theorem dropWhile_append_cons {p : Char → Bool} (hc : p c = false) (xs ys : List Char) :
    (xs ++ c :: ys).dropWhile p = xs.dropWhile p ++ c :: ys := by
  rw [List.dropWhile_append]
  split
  next hempty => simp [List.isEmpty_iff.1 hempty, hc]
  next => rfl

theorem takeWhile_append_cons {p : Char → Bool} (hc : p c = false) (xs ys : List Char) :
    (xs ++ c :: ys).takeWhile p = xs.takeWhile p := by
  rw [List.takeWhile_append]
  split
  next hlength => simp [(List.takeWhile_prefix p).eq_of_length hlength, hc]
  next => rfl

/-- Only what follows the last character that is no blank is left out. -/
theorem trimEnd_append_cons (hc : Unicode.isWhiteSpace c = false) (xs ys : List Char) :
    trimEnd (xs ++ c :: ys) = xs ++ c :: trimEnd ys := by
  rw [trimEnd, List.reverse_append, List.reverse_cons, List.append_assoc, List.singleton_append,
    dropWhile_append_cons hc, List.reverse_append, List.reverse_cons, List.reverse_reverse,
    List.append_assoc, List.singleton_append, trimEnd]

theorem notMem_trimEnd (hbody : '\n' ∉ body) (hfeed : feed = [] ∨ feed = ['\n']) :
    '\n' ∉ trimEnd (body ++ feed) := by
  have htrim : trimEnd (body ++ feed) = trimEnd body := by
    rcases hfeed with rfl | rfl
    · rw [List.append_nil]
    · have hspace : Unicode.isWhiteSpace '\n' = true := by decide
      simp [trimEnd, hspace]
  rw [htrim, trimEnd, List.mem_reverse]
  exact fun h => hbody (List.mem_reverse.1 ((List.dropWhile_sublist _).subset h))

theorem isIndent_of_graphic (hc : Unicode.isWhiteSpace c = false) : isIndent c = false := by
  rw [isIndent, Bool.or_eq_false_iff, beq_eq_false_iff_ne, beq_eq_false_iff_ne]
  constructor
  · rintro rfl
    cases hc
  · rintro rfl
    cases hc

/-! ## Columns -/

theorem utf8Size_eq_one_iff : c.utf8Size = 1 ↔ c.toNat < 128 := by
  rw [Char.utf8Size_eq_one_iff, UInt32.le_iff_toNat_le]
  exact Nat.lt_succ_iff.symm

theorem length_le_byteLength (cs : List Char) : cs.length ≤ byteLength cs := by
  induction cs with
  | nil => exact Nat.le_refl _
  | cons c cs ih =>
    have hpos := Char.utf8Size_pos c
    rw [List.length_cons, byteLength]
    omega

/-- A text takes as many bytes as characters just when these are all of the first `128`. -/
theorem byteLength_eq_length_iff (cs : List Char) :
    byteLength cs = cs.length ↔ ∀ c ∈ cs, c.toNat < 128 := by
  induction cs with
  | nil => simp [byteLength]
  | cons c cs ih =>
    have hpos := Char.utf8Size_pos c
    have hlength := length_le_byteLength cs
    rw [List.forall_mem_cons, ← ih, ← utf8Size_eq_one_iff, List.length_cons, byteLength]
    omega

theorem small_of_isIndent (h : isIndent c = true) : c.toNat < 128 := by
  rw [isIndent, Bool.or_eq_true, beq_iff_eq, beq_iff_eq] at h
  rcases h with rfl | rfl <;> decide

/-- What is left out of the line in front takes one byte each. -/
theorem byteLength_dropWhile (cs : List Char) :
    (cs.takeWhile isIndent).length + byteLength (cs.dropWhile isIndent) = byteLength cs := by
  have hindent : byteLength (cs.takeWhile isIndent) = (cs.takeWhile isIndent).length :=
    (byteLength_eq_length_iff _).2 fun c hc =>
      small_of_isIndent (List.all_eq_true.1 List.all_takeWhile c hc)
  rw [← hindent, ← byteLength_append, List.takeWhile_append_dropWhile]

/-! ## The last two lines -/

/-- The margin of the shown line: its number, and a bar between blanks. -/
def gutter (number : Nat) : List Char := (toString number).toList ++ [' ', '|', ' ']

/-- The margin of the line below, and dashes up to the caret. -/
def pointer (number dashes : Nat) : List Char :=
  List.replicate ((toString number).length + 1) ' ' ++ '|' :: ' ' :: List.replicate dashes '-'

theorem length_pointer (number dashes : Nat) :
    (pointer number dashes).length = (gutter number).length + dashes := by
  have hnumber : (toString number).toList.length = (toString number).length :=
    String.length_toList
  simp only [pointer, gutter, List.length_append, List.length_replicate, List.length_cons,
    List.length_nil, hnumber]
  omega

theorem notMem_toString (n : Nat) : '\n' ∉ (toString n).toList := by
  have hdigits := (allDigits_toDigits n).notMem_feed
  simpa using hdigits

theorem lines_excerpt (number offset : Nat) {text : List Char}
    (h : '\n' ∉ trimEnd (text.dropWhile isIndent)) :
    ∃ first, lines (excerpt ⟨number, text, offset⟩).toList =
      [first, gutter number ++ trimEnd (text.dropWhile isIndent) ++ ['\n'],
        pointer number (offset - (text.takeWhile isIndent).length) ++ ['^'] ++ ['\n']] := by
  have htext : (excerpt ⟨number, text, offset⟩).toList =
      (margin (toString number).length).toList ++ '\n' ::
        ((gutter number ++ trimEnd (text.dropWhile isIndent)) ++ '\n' ::
          ((pointer number (offset - (text.takeWhile isIndent).length) ++ ['^']) ++ '\n' :: [])) := by
    simp [excerpt, margin, caret, gutter, pointer]
  have hmargin : '\n' ∉ (margin (toString number).length).toList := by
    simp [margin]
  have hshown : '\n' ∉ gutter number ++ trimEnd (text.dropWhile isIndent) := by
    simp only [gutter, List.mem_append, not_or]
    exact ⟨⟨notMem_toString number, by decide⟩, h⟩
  have hpointer (dashes : Nat) : '\n' ∉ pointer number dashes ++ ['^'] := by
    simp [pointer]
  refine ⟨(margin (toString number).length).toList ++ ['\n'], ?_⟩
  rw [htext, lines_append_feed hmargin, lines_append_feed hshown, lines_append_feed (hpointer _)]
  rfl

theorem wholeLines_heading (e : Error) : WholeLines (heading e).toList := by
  refine wholeLines_of_getLast? ?_
  rw [heading, String.toList_append]
  exact List.getLast?_concat

/-- The report ends with these two lines. -/
def EndsWith (report : String) (shown pointing : List Char) : Prop :=
  ∃ earlier, lines report.toList = earlier ++ [shown ++ ['\n'], pointing ++ ['\n']]

/-- **The last two lines of a report**: the line of a character that is no blank, and the caret. -/
theorem exists_endsWith (hsource : source.toList = above ++ (before ++ c :: behind))
    (habove : WholeLines above) (hbefore : '\n' ∉ before) (hc : Unicode.isWhiteSpace c = false)
    (hoffset : e.position.offset.toNat = byteLength (above ++ before)) :
    ∃ number rest, EndsWith (render e source)
      (gutter number ++ (before.dropWhile isIndent ++ c :: rest))
      (pointer number (byteLength (before.dropWhile isIndent)) ++ ['^']) := by
  have hne : c ≠ '\n' := by
    rintro rfl
    cases hc
  obtain ⟨body, feed, hbody, hfeed, hline⟩ := locate_of_line habove hbefore hne behind
  have hindent := isIndent_of_graphic hc
  have hshown : trimEnd ((before ++ c :: (body ++ feed)).dropWhile isIndent) =
      before.dropWhile isIndent ++ c :: trimEnd (body ++ feed) := by
    rw [dropWhile_append_cons hindent, trimEnd_append_cons hc]
  have hdashes : byteLength before - ((before ++ c :: (body ++ feed)).takeWhile isIndent).length =
      byteLength (before.dropWhile isIndent) := by
    have hbytes := byteLength_dropWhile before
    rw [takeWhile_append_cons hindent]
    omega
  have hunbroken : '\n' ∉ before.dropWhile isIndent ++ c :: trimEnd (body ++ feed) := by
    have hbefore' := fun h => hbefore ((List.dropWhile_sublist isIndent).subset h)
    have hrest := notMem_trimEnd hbody hfeed
    simp only [List.mem_append, List.mem_cons, not_or]
    exact ⟨hbefore', Ne.symm hne, hrest⟩
  obtain ⟨first, hlines⟩ :=
    lines_excerpt (1 + newlines above) (byteLength before) (hshown ▸ hunbroken)
  rw [hshown, hdashes] at hlines
  refine ⟨1 + newlines above, trimEnd (body ++ feed), lines (heading e).toList ++ [first], ?_⟩
  have hrender : render e source = heading e ++
      excerpt ⟨1 + newlines above, before ++ c :: (body ++ feed), byteLength before⟩ := by
    rw [render, lineAt, hsource, hoffset, hline]
    rfl
  rw [hrender, String.toList_append, (wholeLines_heading e).lines_append, hlines]
  simp

end Report

/-! ## What an error points at -/

open Report Reader LexemeClass

variable {source file : String} {tokens : List Token} {t : Token} {e : Error} {c : Char}
  {above before behind : List Char}

/-- The character `c` is no blank and stands at an offset, on the line that begins behind `above`. -/
structure Stands (source : String) (offset : Nat) (above before : List Char) (c : Char)
    (behind : List Char) : Prop where
  text : source.toList = above ++ (before ++ c :: behind)
  offset : offset = byteLength (above ++ before)
  lines : WholeLines above
  line : '\n' ∉ before
  graphic : Unicode.isWhiteSpace c = false

/-- What is reported for a source: the error of its scan, or what a parse of its tokens flags. -/
inductive ReportedFor (source file : String) : Error → Prop
  | scan {e : Error} (h : tokenize source file = .error e) : ReportedFor source file e
  | parse {tokens : List Token} {d : Diagnostic} (h : tokenize source file = .ok tokens)
      (hd : d ∈ (parse tokens file).after.log.entries.toList) : ReportedFor source file d.error

theorem graphic_of_initialOf (h : initialOf c ≠ .blank) : Unicode.isWhiteSpace c = false := by
  by_contra hc
  exact h (if_pos (by simpa using hc))

/-- A lexeme that is no blank begins with no blank. -/
theorem graphic_of_mem {l : LexemeClass} {piece : List Char} (hl : l ∈ all)
    (hne : l.initial ≠ .blank) (h : piece ∈ l.language) :
    ∃ x rest, piece = x :: rest ∧ Unicode.isWhiteSpace x = false := by
  obtain ⟨x, rest, hpiece, hx⟩ := initial_of_mem hl h
  exact ⟨x, rest, hpiece, graphic_of_initialOf (hx ▸ hne)⟩

theorem exists_next?_of_blank (hc : Unicode.isWhiteSpace c = true) (cs : List Char) :
    ∃ ws rest, next? (c :: cs) = some (.blank, ws, rest) := by
  have hne : (c :: cs).takeWhile Unicode.isWhiteSpace ≠ [] := by simp [hc]
  have hnext := next?_blank hne (List.all_eq_true.1 List.all_takeWhile)
    (stops_dropWhile Unicode.isWhiteSpace (c :: cs))
  rw [List.takeWhile_append_dropWhile] at hnext
  exact ⟨_, _, hnext⟩

theorem graphic_of_failsAt {cause : Cause} (h : FailsAt behind cause) :
    ∃ x rest, behind = x :: rest ∧ Unicode.isWhiteSpace x = false := by
  cases h with
  | @unrecognised x behind h =>
    refine ⟨x, behind, rfl, ?_⟩
    by_contra hx
    obtain ⟨ws, rest, hnext⟩ := exists_next?_of_blank (by simpa using hx) behind
    rw [next?_eq_none_iff.2 h] at hnext
    cases hnext
  | @number piece rest _ hrange =>
    have hpiece : ∃ x w, piece = x :: w ∧ Unicode.isWhiteSpace x = false := by
      rcases hrange with ⟨h, -⟩ | ⟨h, -⟩
      · exact graphic_of_mem (by decide) (by decide) h
      · exact graphic_of_mem (by decide) (by decide) h
    obtain ⟨x, w, rfl, hx⟩ := hpiece
    exact ⟨x, w ++ rest, rfl, hx⟩

/-- A token begins with no blank, where its offset fits a word. -/
theorem graphic_of_token (hsize : source.utf8ByteSize < 2 ^ 32)
    (h : tokenize source file = .ok tokens) (ht : t ∈ tokens)
    (hend : t.start.offset.toNat ≠ source.utf8ByteSize) : ∃ before x rest,
      source.toList = before ++ x :: rest ∧ t.start.offset.toNat = byteLength before ∧
        Unicode.isWhiteSpace x = false := by
  have hlast := mt (fun hk => (endsBehind_of_tokenize hsize h ht hk).1) hend
  obtain ⟨ts, r, walk, -, rfl⟩ := walk_of_tokenize h
  rcases List.mem_append.1 ht with ht | ht
  · obtain ⟨text, l, piece, rest, kind, literal, hsource, -, hnext, htoken, rfl, -⟩ :=
      walk.exists_of_mem ht
    obtain ⟨hl, hsplit⟩ := next?_eq_some hnext
    have hne : l.initial ≠ .blank := by
      cases l with
      | blank => cases htoken
      | _ => simp [initial]
    obtain ⟨x, w, rfl, hx⟩ := graphic_of_mem hl hne ((takesLongest_split? l).mem hsplit)
    refine ⟨text, x, w ++ rest, hsource, ?_, hx⟩
    change (UInt32.ofNat (0 + byteLength text)).toNat = byteLength text
    rw [Nat.zero_add, toNat_offset hsize hsource]
  · obtain rfl := List.mem_singleton.1 ht
    exact absurd rfl hlast

/-- What is reported points at a character that is no blank, or at the end. -/
theorem exists_graphic (hsize : source.utf8ByteSize < 2 ^ 32) (h : ReportedFor source file e)
    (hend : e.position.offset.toNat ≠ source.utf8ByteSize) : ∃ before x rest,
      source.toList = before ++ x :: rest ∧ e.position.offset.toNat = byteLength before ∧
        Unicode.isWhiteSpace x = false := by
  cases h with
  | scan h =>
    obtain ⟨before, behind, hsource, -, hoffset, -, hcause⟩ := failsAt_of_tokenize hsize h
    obtain ⟨x, rest, rfl, hx⟩ := graphic_of_failsAt hcause
    exact ⟨before, x, rest, hsource, hoffset, hx⟩
  | parse h hd =>
    obtain ⟨ht, hposition⟩ := flagged_on_token h hd
    rw [hposition] at hend ⊢
    exact graphic_of_token hsize h ht hend

theorem exists_stands (hsize : source.utf8ByteSize < 2 ^ 32) (h : ReportedFor source file e)
    (hend : e.position.offset.toNat ≠ source.utf8ByteSize) : ∃ above before c behind,
      Stands source e.position.offset.toNat above before c behind := by
  obtain ⟨text, x, rest, hsource, hoffset, hx⟩ := exists_graphic hsize h hend
  obtain ⟨above, before, rfl, habove, hbefore⟩ := exists_wholeLines text
  exact ⟨above, before, x, rest, by rw [hsource, List.append_assoc], hoffset, habove, hbefore, hx⟩

/-- The report ends with the line of `c` behind a margin, with what is left of `before` in front of
`c`, and with a caret below as many columns behind the margin as there are bytes in front of `c`. -/
def CountsBytes (report : String) (before : List Char) (c : Char) : Prop :=
  ∃ margin rest lead, EndsWith report (margin ++ before.dropWhile isIndent ++ c :: rest)
      (lead ++ ['^']) ∧ '^' ∉ lead ∧
    lead.length = margin.length + byteLength (before.dropWhile isIndent) ∧
    (lead.length = (margin ++ before.dropWhile isIndent).length ↔ ∀ d ∈ before, d.toNat < 128)

theorem countsBytes_of_stands (h : Stands source e.position.offset.toNat above before c behind) :
    CountsBytes (render e source) before c := by
  obtain ⟨number, rest, hends⟩ := exists_endsWith h.text h.lines h.line h.graphic h.offset
  refine ⟨_, rest, _, by rwa [List.append_assoc], ?_, length_pointer _ _, ?_⟩
  · simp [pointer]
  · have hbytes := byteLength_dropWhile before
    have hlength := congrArg List.length (@List.takeWhile_append_dropWhile _ isIndent before)
    rw [List.length_append] at hlength
    rw [length_pointer, List.length_append, ← byteLength_eq_length_iff]
    omega

/-- **The caret counts bytes**: what is reported for a source points at a character that is no
blank, unless at the end, and the caret stands under it just when what comes before it in its line
takes one byte each. -/
theorem caret_counts_bytes (h : ReportedFor source file e) :
    (source.utf8ByteSize < 2 ^ 32 → e.position.offset.toNat ≠ source.utf8ByteSize →
      ∃ above before c behind, Stands source e.position.offset.toNat above before c behind) ∧
    ∀ above before c behind, Stands source e.position.offset.toNat above before c behind →
      CountsBytes (render e source) before c :=
  ⟨fun hsize hend => exists_stands hsize h hend, fun _ _ _ _ hstands =>
    countsBytes_of_stands hstands⟩

/-- A tab in front does not show and does not count. -/
theorem caret_behind_a_tab :
    tokenize "\t@" "" = .error ⟨.unrecognisedToken "@", ⟨"", 1⟩⟩ ∧
      Stands "\t@" 1 [] ['\t'] '@' [] ∧
      CountsBytes (render ⟨.unrecognisedToken "@", ⟨"", 1⟩⟩ "\t@") ['\t'] '@' := by
  have herror : tokenize "\t@" "" = .error ⟨.unrecognisedToken "@", ⟨"", 1⟩⟩ := by cbv
  have hstands : Stands "\t@" 1 [] ['\t'] '@' [] :=
    ⟨rfl, rfl, .nil, by decide, by decide⟩
  exact ⟨herror, hstands, (caret_counts_bytes (.scan herror)).2 [] ['\t'] '@' [] hstands⟩

/-- A letter of two bytes in front: the caret stands one column behind the character. -/
theorem accent_moves_the_caret :
    tokenize "BEGIN\n  x := 'é' @ 1\nEND." "" = .error ⟨.unrecognisedToken "@", ⟨"", 18⟩⟩ ∧
      EndsWith (render ⟨.unrecognisedToken "@", ⟨"", 18⟩⟩ "BEGIN\n  x := 'é' @ 1\nEND.")
        "2 | x := 'é' @ 1".toList "  | ----------^".toList ∧
      "2 | x := 'é' @ 1".toList.idxOf '@' = 13 ∧ "  | ----------^".toList.idxOf '^' = 14 := by
  refine ⟨by cbv, ⟨["Error: UnrecognisedToken\n".toList, "-> \n".toList, "  |\n".toList], ?_⟩, ?_, ?_⟩
  · decide +kernel
  · decide
  · decide

end PascalBlock
