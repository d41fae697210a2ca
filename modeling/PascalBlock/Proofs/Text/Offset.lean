import PascalBlock.Proofs.Text.Line

/-!
# Offsets in lines

To ask for the line of an offset is to ask for a cut of the text around one of its lines. The lines
of a text are its cuts, and a walk along any list of lines comes to the one that covers the offset.
Main result: the line that is found is the one line of a cut that has the offset in it, so nothing of
the offset is lost; and one is found for every offset up to the end of a text that is not empty
(`lineAt_inverts_offsets`).
-/

namespace PascalBlock.Text

variable {cs above line below : List Char} {ls : List (List Char)} {n position : Nat} {found : Line}
  {source : String}

/-! ## The cuts of a text -/

/-- A text in three parts, of which the middle one is a line: whole lines stand above it, it has no
line feed but at its end, and it ends with one unless it ends the text. -/
structure CutsLine (cs above line below : List Char) : Prop where
  text : cs = above ++ line ++ below
  starts : above = [] ∨ above.getLast? = some '\n'
  nonempty : line ≠ []
  feed : '\n' ∉ line.dropLast
  ends : line.getLast? = some '\n' ∨ below = []

theorem wholeLines_iff : WholeLines cs ↔ cs = [] ∨ cs.getLast? = some '\n' := by
  constructor
  · intro h
    induction h with
    | nil => exact .inl rfl
    | cons _ _ ih =>
      rcases ih with rfl | hlast
      · simp
      · simp [List.getLast?_cons, hlast]
  · rintro (rfl | h)
    · exact .nil
    · exact wholeLines_of_getLast? h

namespace CutsLine

theorem wholeLines (h : CutsLine cs above line below) : WholeLines above := wholeLines_iff.2 h.starts

/-- The line of a cut is the first one behind those above. -/
theorem lines_eq (h : CutsLine cs above line below) :
    lines cs = lines above ++ line :: lines below := by
  have hfirst : lines (line ++ below) = line :: lines below := by
    obtain ⟨body, c, hline⟩ := (List.eq_nil_or_concat line).resolve_left h.nonempty
    obtain rfl : line = body ++ [c] := hline.trans List.concat_eq_append
    have hbody : '\n' ∉ body := by simpa using h.feed
    by_cases hc : c = '\n'
    · rw [hc, List.append_assoc, List.singleton_append, lines_append_feed hbody]
    · obtain rfl : below = [] := h.ends.resolve_left (by simpa using hc)
      rw [List.append_nil, lines_of_notMem h.nonempty (by simp [hbody, Ne.symm hc])]
      rfl
  rw [h.text, List.append_assoc, h.wholeLines.lines_append, hfirst]

/-- With a line in front, whole lines are still above. -/
theorem behind {body : List Char} (hbody : '\n' ∉ body) (h : CutsLine cs above line below) :
    CutsLine (body ++ '\n' :: cs) (body ++ '\n' :: above) line below where
  text := by simp [h.text]
  starts := wholeLines_iff.1 (.cons hbody h.wholeLines)
  nonempty := h.nonempty
  feed := h.feed
  ends := h.ends

end CutsLine

/-- The first line is a text without a line feed, or goes up to one with the other lines behind. -/
theorem cases_of_lines_eq (h : lines cs = line :: ls) :
    (cs = line ∧ line ≠ [] ∧ '\n' ∉ line ∧ ls = []) ∨
      ∃ body more, line = body ++ ['\n'] ∧ '\n' ∉ body ∧ cs = body ++ '\n' :: more ∧
        ls = lines more := by
  by_cases hfeed : '\n' ∈ cs
  · obtain ⟨body, more, rfl, hbody⟩ := List.eq_append_cons_of_mem hfeed
    rw [lines_append_feed hbody] at h
    obtain ⟨rfl, rfl⟩ := List.cons.inj h
    exact .inr ⟨body, more, rfl, hbody, rfl, rfl⟩
  · have hne : cs ≠ [] := fun hcs => by simp [lines_eq_nil_iff.2 hcs] at h
    rw [lines_of_notMem hne hfeed] at h
    obtain ⟨rfl, rfl⟩ := List.cons.inj h
    exact .inl ⟨rfl, hne, hfeed, rfl⟩

/-- Every line of a text is cut out of it by what the lines before it and behind it make up. -/
theorem exists_cutsLine {front behind : List (List Char)} (h : lines cs = front ++ line :: behind) :
    ∃ above below, CutsLine cs above line below ∧ lines above = front ∧ lines below = behind := by
  induction front generalizing cs with
  | nil =>
    rcases cases_of_lines_eq h with ⟨rfl, hne, hfeed, rfl⟩ | ⟨body, more, rfl, hbody, rfl, rfl⟩
    · have hlast : '\n' ∉ cs.dropLast := fun hmem => hfeed (cs.dropLast_subset hmem)
      exact ⟨[], [], ⟨by simp, .inl rfl, hne, hlast, .inr rfl⟩, rfl, rfl⟩
    · have hlast : '\n' ∉ (body ++ ['\n']).dropLast := by simpa using hbody
      exact ⟨[], more, ⟨by simp, .inl rfl, by simp, hlast, .inl (by simp)⟩, rfl, rfl⟩
  | cons first front ih =>
    rcases cases_of_lines_eq h with ⟨-, -, -, hnone⟩ | ⟨body, more, rfl, hbody, rfl, hmore⟩
    · simp at hnone
    · -- the line is cut out of what follows the first line, which then goes back on top
      obtain ⟨above, below, hcut, rfl, rfl⟩ := ih hmore.symm
      exact ⟨body ++ '\n' :: above, below, hcut.behind hbody, lines_append_feed hbody above, rfl⟩

/-! ## Walks along lines -/

/-- A walk comes to a line that covers the offset, or to the end of the last one. -/
theorem exists_of_locate (h : locate ls n position = some found) : ∃ front behind,
    ls = front ++ found.text :: behind ∧ found.number = n + front.length ∧
      byteLength front.flatten + found.offset = position ∧
      (found.offset < byteLength found.text ∨
        behind = [] ∧ found.offset = byteLength found.text) := by
  fun_induction locate ls n position with
  | case1 => cases h
  | case2 line n position hle =>
    obtain rfl := Option.some.inj h
    refine ⟨[], [], rfl, rfl, Nat.zero_add _, ?_⟩
    exact (Nat.lt_or_eq_of_le hle).imp_right fun hend => ⟨rfl, hend⟩
  | case3 => cases h
  | case4 line next rest n position hlt =>
    obtain rfl := Option.some.inj h
    exact ⟨[], next :: rest, rfl, rfl, Nat.zero_add _, .inl hlt⟩
  | case5 line next rest n position hpast ih =>
    obtain ⟨front, behind, hlines, hnumber, hplace, hinside⟩ := ih h
    refine ⟨line :: front, behind, by rw [hlines, List.cons_append], ?_, ?_, hinside⟩
    · rw [hnumber, List.length_cons]
      omega
    · rw [List.flatten_cons, byteLength_append]
      omega

/-- A walk comes to no line only if there is none, or if the offset lies beyond all of them. -/
theorem locate_eq_none_iff :
    locate ls n position = none ↔ ls = [] ∨ byteLength ls.flatten < position := by
  fun_induction locate ls n position with
  | case1 => simp
  | case2 line n position hle => simpa using hle
  | case3 line n position hpast => simpa using hpast
  | case4 line next rest n position hlt =>
    have hwithin : ¬ byteLength (line :: next :: rest).flatten < position := by
      rw [List.flatten_cons, byteLength_append]
      omega
    simp only [reduceCtorEq, hwithin, or_self]
  | case5 line next rest n position hpast ih =>
    have hbeyond : byteLength (next :: rest).flatten < position - byteLength line ↔
        byteLength (line :: next :: rest).flatten < position := by
      rw [List.flatten_cons (l := line), byteLength_append]
      omega
    rw [ih, hbeyond]
    simp only [reduceCtorEq, false_or]

/-! ## The line of an offset -/

/-- The line is that of a cut, with its number, and the offset in it is that of the place in the
text. Only the end of the text lies at the end of its line. -/
structure Line.Holds (found : Line) (cs : List Char) (position : Nat)
    (above below : List Char) : Prop extends CutsLine cs above found.text below where
  number : found.number = 1 + newlines above
  place : byteLength above + found.offset = position
  inside : found.offset < byteLength found.text ∨
    below = [] ∧ found.offset = byteLength found.text

theorem Line.Holds.lineAt_eq (h : found.Holds source.toList position above below) :
    lineAt source position = some found := by
  have hinside := h.inside.imp_right (And.imp_left lines_eq_nil_iff.2)
  -- the lines above the cut are those that the walk passes by
  have hpast := locate_past (lines above) (List.cons_ne_nil found.text (lines below)) 1 found.offset
  rw [flatten_lines, h.place, ← h.lines_eq, h.wholeLines.length_lines, ← h.number,
    locate_first hinside] at hpast
  exact hpast

theorem exists_holds (h : lineAt source position = some found) :
    ∃ above below, found.Holds source.toList position above below := by
  obtain ⟨front, behind, hlines, hnumber, hplace, hinside⟩ := exists_of_locate h
  obtain ⟨above, below, hcut, rfl, rfl⟩ := exists_cutsLine hlines
  rw [hcut.wholeLines.length_lines] at hnumber
  rw [flatten_lines] at hplace
  rw [lines_eq_nil_iff] at hinside
  exact ⟨above, below, hcut, hnumber, hplace, hinside⟩

/-- **Finding a line inverts offsets**: none is found in an empty text and beyond the end of the
text. Otherwise what is found is the line of a cut that has the offset in it, and no other line,
number and offset are those of such a cut. -/
theorem lineAt_inverts_offsets (source : String) (position : Nat) :
    (lineAt source position = none ↔ source = "" ∨ source.utf8ByteSize < position) ∧
      ∀ found, lineAt source position = some found ↔
        ∃ above below, found.Holds source.toList position above below := by
  refine ⟨?_, fun found => ⟨exists_holds, fun ⟨_, _, h⟩ => h.lineAt_eq⟩⟩
  rw [lineAt, locate_eq_none_iff, flatten_lines, lines_eq_nil_iff, String.toList_eq_nil_iff,
    utf8ByteSize_eq]

/-- An offset may lie inside a character, and the end of the text behind a line feed. -/
example : lineAt "\né\n" 2 = some ⟨2, ['é', '\n'], 1⟩ ∧
    lineAt "\né\n" 4 = some ⟨2, ['é', '\n'], 3⟩ := by decide +kernel

end PascalBlock.Text
