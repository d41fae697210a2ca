import PascalBlock.Proofs.Text.Bytes

/-!
# Numbers of lines

The line that holds a place of a text is found by walking along the lines, and its number is one
more than the line feeds before the place (`locate_of_append`). The end of the text belongs to the
line that ends there, also when that line ends with a line feed (`locate_of_end`). Lines that end
before the place are passed by (`locate_past`). What stands in the line before a character and from
there on is what stands there in the text (`locate_of_line`).
-/

namespace PascalBlock.Text

variable {c x : Char} {cs before behind above : List Char} {n offset : Nat}

/-- One for a line feed at the end of the text. -/
def endingFeed (cs : List Char) : Nat := if cs.getLast? = some '\n' then 1 else 0

/-! ## Lines -/

theorem lines_cons (c : Char) (cs : List Char) : lines (c :: cs) = consLine c (lines cs) := rfl

theorem flatten_consLine (c : Char) (ls : List (List Char)) :
    (consLine c ls).flatten = c :: ls.flatten := by
  cases ls with
  | nil => rfl
  | cons line rest => by_cases hc : c = '\n' <;> simp [consLine, hc]

/-- Put together the lines are the text. -/
theorem flatten_lines (cs : List Char) : (lines cs).flatten = cs := by
  induction cs with
  | nil => rfl
  | cons c cs ih => rw [lines_cons, flatten_consLine, ih]

/-- The first line of a text begins with its first character. -/
theorem exists_lines_cons (c : Char) (cs : List Char) :
    ∃ line rest, lines (c :: cs) = (c :: line) :: rest := by
  rw [lines_cons]
  cases lines cs with
  | nil => exact ⟨[], [], rfl⟩
  | cons line rest =>
    by_cases hc : c = '\n'
    · exact ⟨[], line :: rest, by simp [consLine, hc]⟩
    · exact ⟨line, rest, by simp [consLine, hc]⟩

theorem lines_eq_nil_iff : lines cs = [] ↔ cs = [] := by
  cases cs with
  | nil => simp [lines]
  | cons c cs =>
    obtain ⟨line, rest, h⟩ := exists_lines_cons c cs
    simp [h]

/-- A line goes up to its line feed. -/
theorem lines_append_feed {line : List Char} (h : '\n' ∉ line) (rest : List Char) :
    lines (line ++ '\n' :: rest) = (line ++ ['\n']) :: lines rest := by
  induction line with
  | nil => cases hrest : lines rest <;> simp [lines_cons, hrest, consLine]
  | cons c cs ih =>
    rw [List.mem_cons, not_or] at h
    rw [List.cons_append, lines_cons, ih h.2, consLine, if_neg (Ne.symm h.1), List.cons_append]

theorem lines_of_notMem (hne : cs ≠ []) (h : '\n' ∉ cs) : lines cs = [cs] := by
  induction cs with
  | nil => exact absurd rfl hne
  | cons c cs ih =>
    rw [List.mem_cons, not_or] at h
    cases cs with
    | nil => rfl
    | cons d cs =>
      rw [lines_cons, ih (List.cons_ne_nil d cs) h.2, consLine, if_neg (Ne.symm h.1)]

/-- The first line of a text goes on from its characters up to a line feed or the end. -/
theorem exists_lines_append (hne : before ≠ []) (h : '\n' ∉ before) (behind : List Char) :
    ∃ body feed rest, '\n' ∉ body ∧ (feed = [] ∨ feed = ['\n']) ∧
      lines (before ++ behind) = (before ++ (body ++ feed)) :: rest := by
  by_cases hfeed : '\n' ∈ behind
  · obtain ⟨body, more, rfl, hbody⟩ := List.eq_append_cons_of_mem hfeed
    have hline : '\n' ∉ before ++ body := by simp [h, hbody]
    refine ⟨body, ['\n'], lines more, hbody, .inr rfl, ?_⟩
    rw [← List.append_assoc, lines_append_feed hline, List.append_assoc]
  · have hline : '\n' ∉ before ++ behind := by simp [h, hfeed]
    refine ⟨behind, [], [], hfeed, .inl rfl, ?_⟩
    rw [lines_of_notMem (by simp [hne]) hline, List.append_nil]

/-- Every line feed ends a line, and so does the end of a text that goes on behind the last one. -/
theorem length_lines (cs : List Char) : (lines cs).length + endingFeed cs =
    newlines cs + if cs = [] then 0 else 1 := by
  induction cs with
  | nil => rfl
  | cons c cs ih =>
    cases cs with
    | nil => by_cases hc : c = '\n' <;> simp [lines, consLine, endingFeed, newlines, hc]
    | cons d cs =>
      obtain ⟨line, rest, h⟩ := exists_lines_cons d cs
      have hfeed : endingFeed (c :: d :: cs) = endingFeed (d :: cs) := by simp [endingFeed]
      rw [hfeed, lines_cons, newlines_cons, h]
      rw [h, if_neg (List.cons_ne_nil d cs)] at ih
      by_cases hc : c = '\n'
      · simp only [consLine, hc, if_true, List.length_cons] at ih ⊢
        simp
        omega
      · simp only [consLine, hc, if_false, List.length_cons] at ih ⊢
        simp
        omega

/-! ## Places -/

/-- The first line holds its own offsets, and its end if it is the only one. -/
theorem locate_first {line : List Char} {rest : List (List Char)}
    (h : offset < byteLength line ∨ rest = [] ∧ offset = byteLength line) :
    locate (line :: rest) n offset = some ⟨n, line, offset⟩ := by
  cases rest with
  | nil =>
    have hle : offset ≤ byteLength line := h.elim Nat.le_of_lt fun hend => Nat.le_of_eq hend.2
    rw [locate, if_pos hle]
  | cons next rest =>
    have hlt : offset < byteLength line := h.resolve_right fun hend => List.cons_ne_nil _ _ hend.1
    rw [locate, if_pos hlt]

/-- Lines that end before the place are passed by. -/
theorem locate_past (front : List (List Char)) {rest : List (List Char)} (hrest : rest ≠ [])
    (n offset : Nat) : locate (front ++ rest) n (byteLength front.flatten + offset) =
      locate rest (n + front.length) offset := by
  induction front generalizing n with
  | nil => simp [byteLength]
  | cons line front ih =>
    obtain ⟨next, others, hnext⟩ := List.exists_cons_of_ne_nil (l := front ++ rest) (by simp [hrest])
    have hsize : byteLength (line :: front).flatten + offset =
        byteLength line + (byteLength front.flatten + offset) := by
      rw [List.flatten_cons, byteLength_append, Nat.add_assoc]
    rw [List.cons_append, hnext, hsize, locate, if_neg (by omega), Nat.add_sub_cancel_left, ← hnext,
      ih (n + 1), List.length_cons, Nat.add_assoc, Nat.add_comm 1]

/-- With a character in front of the text the place has the same line, which has the next number
when the character is a line feed. -/
theorem number_locate_cons (hcs : cs ≠ []) :
    (locate (lines (c :: cs)) n (c.utf8Size + offset)).map Line.number =
      (locate (lines cs) (n + if c = '\n' then 1 else 0) offset).map Line.number := by
  cases hlines : lines cs with
  | nil => exact absurd (lines_eq_nil_iff.1 hlines) hcs
  | cons line rest =>
    rw [lines_cons, hlines]
    by_cases hc : c = '\n'
    · subst hc
      have hsize : Char.utf8Size '\n' = 1 := rfl
      simp [consLine, locate, byteLength, hsize]
    · cases rest with
      | nil => simp [consLine, locate, byteLength, hc]
      | cons next rest =>
        by_cases hlt : offset < byteLength line <;>
          simp [consLine, locate, byteLength, hc, hlt, Nat.add_sub_add_left]

/-- The line of a character has as its number one more than the line feeds before the character,
when the first line has the number one. -/
theorem locate_of_append (before : List Char) (x : Char) (behind : List Char) (n : Nat) :
    (locate (lines (before ++ x :: behind)) n (byteLength before)).map Line.number =
      some (n + newlines before) := by
  induction before generalizing n with
  | nil =>
    obtain ⟨line, rest, h⟩ := exists_lines_cons x behind
    have hpos := Nat.add_pos_left (Char.utf8Size_pos x) (byteLength line)
    rw [List.nil_append, h]
    cases rest <;> simp [locate, byteLength, newlines, hpos]
  | cons c cs ih =>
    rw [List.cons_append, byteLength, number_locate_cons (by simp), ih, newlines_cons,
      Nat.add_assoc]

/-- The end of a text lies in its last line. -/
theorem locate_of_end (hcs : cs ≠ []) (n : Nat) :
    ((locate (lines cs) n (byteLength cs)).map Line.number).map (· + endingFeed cs) =
      some (n + newlines cs) := by
  induction cs generalizing n with
  | nil => exact absurd rfl hcs
  | cons c cs ih =>
    cases cs with
    | nil => by_cases hc : c = '\n' <;> simp [lines, consLine, locate, endingFeed, newlines, hc]
    | cons d cs =>
      have hfeed : endingFeed (c :: d :: cs) = endingFeed (d :: cs) := by simp [endingFeed]
      rw [byteLength, number_locate_cons (List.cons_ne_nil d cs), hfeed,
        ih (List.cons_ne_nil d cs), newlines_cons c, Nat.add_assoc]

/-! ## Whole lines -/

/-- Whole lines: nothing, or a text that ends with a line feed. -/
inductive WholeLines : List Char → Prop
  | nil : WholeLines []
  | cons {line rest : List Char} (h : '\n' ∉ line) (hrest : WholeLines rest) :
    WholeLines (line ++ '\n' :: rest)

theorem WholeLines.lines_append (h : WholeLines above) (cs : List Char) :
    lines (above ++ cs) = lines above ++ lines cs := by
  induction h with
  | nil => rfl
  | @cons line rest hline _ ih =>
    rw [List.append_assoc, List.cons_append, lines_append_feed hline, lines_append_feed hline, ih,
      List.cons_append]

theorem WholeLines.length_lines (h : WholeLines above) : (lines above).length = newlines above := by
  induction h with
  | nil => rfl
  | @cons line rest hline _ ih =>
    rw [lines_append_feed hline, List.length_cons, ih]
    simp [newlines, List.count_eq_zero.2 hline]

/-- Whole lines in front are passed by. -/
theorem WholeLines.locate (h : WholeLines above) (hcs : cs ≠ []) (n offset : Nat) :
    Text.locate (lines (above ++ cs)) n (byteLength above + offset) =
      Text.locate (lines cs) (n + newlines above) offset := by
  have hpast := locate_past (lines above) (mt lines_eq_nil_iff.1 hcs) n offset
  rwa [flatten_lines, h.length_lines, ← h.lines_append] at hpast

/-- Every text is made of whole lines and the beginning of another one. -/
theorem exists_wholeLines (cs : List Char) :
    ∃ above before, cs = above ++ before ∧ WholeLines above ∧ '\n' ∉ before := by
  induction cs with
  | nil => exact ⟨[], [], rfl, .nil, by simp⟩
  | cons c cs ih =>
    obtain ⟨above, before, rfl, habove, hbefore⟩ := ih
    by_cases hc : c = '\n'
    · exact ⟨c :: above, before, rfl, hc ▸ @WholeLines.cons [] above (by simp) habove, hbefore⟩
    · cases habove with
      | nil => exact ⟨[], c :: before, rfl, .nil, by simp [hbefore, Ne.symm hc]⟩
      | @cons line rest hline hrest =>
        exact ⟨(c :: line) ++ '\n' :: rest, before, by simp,
          .cons (by simp [hline, Ne.symm hc]) hrest, hbefore⟩

theorem wholeLines_of_getLast? (h : cs.getLast? = some '\n') : WholeLines cs := by
  obtain ⟨above, before, rfl, habove, hbefore⟩ := exists_wholeLines cs
  cases before with
  | nil => rwa [List.append_nil]
  | cons c before =>
    rw [List.getLast?_append, List.getLast?_cons, Option.some_or, ← List.getLast?_cons] at h
    exact absurd (List.mem_of_getLast? h) hbefore

/-- **The line that holds a character** is the text from the last line feed before it to the next
one. -/
theorem locate_of_line (habove : WholeLines above) (hbefore : '\n' ∉ before) (hx : x ≠ '\n')
    (behind : List Char) : ∃ body feed, '\n' ∉ body ∧ (feed = [] ∨ feed = ['\n']) ∧
      locate (lines (above ++ (before ++ x :: behind))) 1 (byteLength (above ++ before)) =
        some ⟨1 + newlines above, before ++ x :: (body ++ feed), byteLength before⟩ := by
  have hline : '\n' ∉ before ++ [x] := by simp [hbefore, Ne.symm hx]
  obtain ⟨body, feed, rest, hbody, hfeed, hlines⟩ :=
    exists_lines_append (by simp) hline behind
  rw [List.append_assoc, List.append_assoc, List.singleton_append, List.singleton_append] at hlines
  have hlt : byteLength before < byteLength (before ++ x :: (body ++ feed)) := by
    have hpos := byteLength_pos (List.cons_ne_nil x (body ++ feed))
    rw [byteLength_append]
    omega
  refine ⟨body, feed, hbody, hfeed, ?_⟩
  rw [byteLength_append, habove.locate (by simp), hlines, locate_first (.inl hlt)]

end PascalBlock.Text
