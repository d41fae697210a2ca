import PascalBlock.Proofs.LineNumbers
import PascalBlock.Proofs.Parser.Starts

/-!
# What is reported is in the order of the source

Each token of a source starts behind a part of it, and these parts grow from token to token
(`places_of_tokenize`). What a parse reports goes along the tokens, so its positions and lines count
the bytes and the line feeds of parts that grow as well (`countedAlong_of_along`). They are words of
32 bits, though, and behind `2 ^ 32` bytes, or as many lines, they start again at zero.
-/

namespace PascalBlock

open Text Reader PascalBlock.Parser

variable {ts tokens : List Token} {t : Token} {source file : String} {x y : List Char}
  {count : List Char → Nat} {words : List UInt32}

/-! ## Counting along a source -/

/-- The words count what there is in parts of the source that grow. They start again at `2 ^ 32`, so
it is where the whole source has less that they never decrease. -/
structure CountedAlong (source : String) (count : List Char → Nat) (words : List UInt32) :
    Prop where
  counted : ∃ texts : List (List Char), texts.Pairwise (· <+: ·) ∧
    (∀ x ∈ texts, x <+: source.toList) ∧ words = texts.map fun x => .ofNat (count x)
  ordered : count source.toList < 2 ^ 32 → words.Pairwise (· ≤ ·)

theorem byteLength_le_of_prefix (h : x <+: y) : byteLength x ≤ byteLength y := by
  obtain ⟨more, rfl⟩ := h
  rw [byteLength_append]
  exact Nat.le_add_right _ _

/-- The line behind a part of a source, counted from one. -/
def lineBehind (before : List Char) : Nat := 1 + newlines before

theorem lineBehind_le_of_prefix (h : x <+: y) : lineBehind x ≤ lineBehind y :=
  Nat.add_le_add_left (h.sublist.count_le _) 1

/-- What only grows with the text is in order where it fits a word. -/
theorem countedAlong_of_texts (hmono : ∀ {x y : List Char}, x <+: y → count x ≤ count y)
    {texts : List (List Char)} (hgrows : texts.Pairwise (· <+: ·))
    (hends : ∀ x ∈ texts, x <+: source.toList) :
    CountedAlong source count (texts.map fun x => .ofNat (count x)) := by
  refine ⟨⟨texts, hgrows, hends, rfl⟩, fun hfits => ?_⟩
  have hlt : ∀ x ∈ texts, count x < 2 ^ 32 :=
    fun x hx => Nat.lt_of_le_of_lt (hmono (hends x hx)) hfits
  refine List.pairwise_map.2 (hgrows.imp_of_mem fun {x y} hx hy hxy => ?_)
  rw [UInt32.le_iff_toNat_le, UInt32.toNat_ofNat_of_lt' (hlt x hx),
    UInt32.toNat_ofNat_of_lt' (hlt y hy)]
  exact hmono hxy

/-- Tokens in their order have words that count along the source, if these tell what there is in
front of each. -/
theorem countedAlong_of_along (h : tokenize source file = .ok tokens) (hts : Along tokens ts)
    (hmono : ∀ {x y : List Char}, x <+: y → count x ≤ count y) {word : Token → UInt32}
    (hword : ∀ {before : List Char} {t : Token}, (ofSource source file).Places before t →
      word t = .ofNat (count before)) : CountedAlong source count (ts.map word) := by
  obtain ⟨places, rfl, hall⟩ := places_of_tokenize h
  obtain ⟨found, hfound, rfl⟩ := hts.exists_of_map
  have hwords : (found.map (·.2)).map word =
      (found.map (·.1)).map fun x => UInt32.ofNat (count x) := by
    rw [List.map_map, List.map_map]
    exact List.map_congr_left fun x hx => hword (hall.each x (hfound.subset hx))
  rw [hwords]
  refine countedAlong_of_texts hmono ?_ (List.forall_mem_map.2 fun x hx => ?_)
  · exact List.pairwise_map.2 (hfound.pairwise (fun _ => List.prefix_rfl) hall.grows)
  · exact (List.prefix_append _ _).trans (hall.within x (hfound.subset hx))

theorem countedAlong_starts (h : tokenize source file = .ok tokens) (hts : Along tokens ts) :
    CountedAlong source byteLength (ts.map (·.start.offset)) :=
  countedAlong_of_along h hts byteLength_le_of_prefix fun hplace => by rw [hplace.start_eq]

theorem countedAlong_lines (h : tokenize source file = .ok tokens) (hts : Along tokens ts) :
    CountedAlong source lineBehind (ts.map (·.line)) :=
  countedAlong_of_along h hts lineBehind_le_of_prefix Places.line_eq

/-- The tokens that a parse has seen are the first ones of the source. -/
theorem seen_of_tokenize (h : tokenize source file = .ok tokens) :
    consumed tokens (parse tokens file) ++ [(parse tokens file).after.current] <+: tokens := by
  have hprefix : consumed tokens (parse tokens file) ++ [(parse tokens file).after.current] <+:
      (Cursor.ofTokens tokens file).stream :=
    (readsProgram_parse tokens file).effect.prefix_stream
  rwa [stream_of_tokenize h] at hprefix

/-! ## Reports in order -/

/-- What a parse has reported of the tokens of a source comes in the order of the source: its
diagnostics, the lines of the statements in the tree, and the lines of every name. -/
structure InSourceOrder (source file : String) (tokens : List Token)
    (out : Parsed (Option Node)) : Prop where
  /-- The tokens up to the one that the parse stops at are the first ones of the source. -/
  seen : consumed tokens out ++ [out.after.current] <+: tokens
  flagged : Along (consumed tokens out ++ [out.after.current])
    (out.after.log.entries.toList.map (·.token))
  placed : ∀ d ∈ out.after.log.entries.toList,
    d.error.position = d.token.start ∧ d.error.position.file = file
  /-- Each diagnostic stands behind a part of the source, and the parts grow, up to the one in front
  of the last token that was seen. -/
  positions : CountedAlong source byteLength
    (out.after.log.entries.toList.map (·.error.position.offset) ++
      [out.after.current.start.offset])
  /-- The statements of the tree are those that were started, each with the line of the token that
  it was started at. -/
  statements : ∃ vs, Runs .program (ofTokens tokens file).withStatements vs out.after ∧
    Node.statements out.value.toList = (started vs).map (fun p => p.statement.value) ∧
    (Node.statements out.value.toList).map Node.line? =
      (started vs).map (fun p => some p.current.line) ∧
    Along (consumed tokens out ++ [out.after.current]) ((started vs).map current) ∧
    CountedAlong source lineBehind ((started vs).map fun p => p.current.line)
  expressions : ∀ n ∈ Node.expressions out.value.toList, n.attributes.line = none
  entries : ∀ e : EntryRef, CountedAlong source lineBehind (out.after.scopes.linesOf e)

/-- **What a parse reports is in the order of the source**, however malformed the source is. -/
theorem reports_are_in_source_order (h : tokenize source file = .ok tokens) :
    InSourceOrder source file tokens (parse tokens file) := by
  have hread := readsProgram_parse tokens file
  have hseen := seen_of_tokenize h
  obtain ⟨vs, run, hstarts⟩ := hread.starts (standard_withStatements tokens file)
  constructor
  case seen => exact hseen
  case flagged => exact hread.flaggedAlong
  case placed =>
    intro d hd
    obtain ⟨ht, hposition⟩ := flagged_on_token h hd
    obtain ⟨before, behind, -, hplace, -⟩ := place_of_tokenize h ht
    exact ⟨hposition, by rw [hposition, hplace.start_eq]⟩
  case positions =>
    have halong := hread.flaggedAlong.append (.stay (.nil [(parse tokens file).after.current]))
    have hcounted := countedAlong_starts h (halong.of_prefix hseen)
    rw [List.map_append, ← hread.placed.map_offset] at hcounted
    exact hcounted
  case statements =>
    refine ⟨vs, run, hstarts.nodes, hstarts.lines, hstarts.along, ?_⟩
    have hcounted := countedAlong_lines h (hstarts.along.of_prefix hseen)
    rwa [List.map_map] at hcounted
  case expressions => exact hstarts.unlined
  case entries =>
    intro e
    obtain ⟨us, hus, heq⟩ := hread.exists_recorded rfl e
    rw [heq]
    have hsub : us.Sublist tokens :=
      hus.trans ((List.sublist_append_left _ _).trans hseen.sublist)
    exact countedAlong_lines h (.of_sublist hsub)

/-- An assignment with a name that is not known and a parenthesis that is not closed, in a program
without its period. -/
def unclosedName : List Token :=
  [⟨.beginWord, "BEGIN", none, 1, ⟨"", 0⟩, ⟨"", 5⟩⟩, ⟨.identifier, "x", none, 2, ⟨"", 8⟩, ⟨"", 9⟩⟩,
    ⟨.becomes, ":=", none, 2, ⟨"", 10⟩, ⟨"", 12⟩⟩, ⟨.leftParen, "(", none, 2, ⟨"", 13⟩, ⟨"", 14⟩⟩,
    ⟨.identifier, "y", none, 2, ⟨"", 14⟩, ⟨"", 15⟩⟩, ⟨.semicolon, ";", none, 2, ⟨"", 15⟩, ⟨"", 16⟩⟩,
    ⟨.endWord, "END", none, 3, ⟨"", 17⟩, ⟨"", 20⟩⟩, .endAt 3 ⟨"", 20⟩]

theorem unclosedName_reports_are_in_order :
    tokenize "BEGIN\n  x := (y;\nEND" "" = .ok unclosedName ∧
      InSourceOrder "BEGIN\n  x := (y;\nEND" "" unclosedName (parse unclosedName "") := by
  have htokens : tokenize "BEGIN\n  x := (y;\nEND" "" = .ok unclosedName := by cbv
  exact ⟨htokens, reports_are_in_source_order htokens⟩

/-! ## Behind `2 ^ 32` bytes -/

/-- The tokens in front of a gap, up to a parenthesis that belongs nowhere. -/
def aboveGap : List Token :=
  [⟨.beginWord, "BEGIN", none, 1, ⟨"", 0⟩, ⟨"", 5⟩⟩, ⟨.identifier, "x", none, 3, ⟨"", 7⟩, ⟨"", 8⟩⟩,
    ⟨.becomes, ":=", none, 3, ⟨"", 8⟩, ⟨"", 10⟩⟩,
    ⟨.integer, "1", some (.integer 1), 3, ⟨"", 10⟩, ⟨"", 11⟩⟩,
    ⟨.semicolon, ";", none, 3, ⟨"", 11⟩, ⟨"", 12⟩⟩,
    ⟨.rightParen, ")", none, 3, ⟨"", 12⟩, ⟨"", 13⟩⟩]

/-- The tokens behind the gap, as they stand by themselves: another such parenthesis, and the same
name again. -/
def belowGap : List Token :=
  [⟨.rightParen, ")", none, 1, ⟨"", 0⟩, ⟨"", 1⟩⟩, ⟨.identifier, "x", none, 1, ⟨"", 1⟩, ⟨"", 2⟩⟩,
    ⟨.becomes, ":=", none, 1, ⟨"", 2⟩, ⟨"", 4⟩⟩,
    ⟨.integer, "2", some (.integer 2), 1, ⟨"", 4⟩, ⟨"", 5⟩⟩,
    ⟨.endWord, "END", none, 1, ⟨"", 6⟩, ⟨"", 9⟩⟩, ⟨.dot, ".", none, 1, ⟨"", 9⟩, ⟨"", 10⟩⟩,
    .endAt 1 ⟨"", 10⟩]

/-- Where two parts of a program are `2 ^ 32 - 2` line feeds apart, the positions of what is
flagged, the lines of the statements and those of a name start again. -/
theorem reports_start_again :
    ∃ tokens, tokenize ("BEGIN\n\nx:=1;)" ++ feeds (2 ^ 32 - 2) ++ ")x:=2 END.") "" = .ok tokens ∧
      ¬ ((parse tokens "").after.log.entries.toList.map (·.error.position.offset)).Pairwise
        (· ≤ ·) ∧
      ¬ ((Node.statements (parse tokens "").value.toList).filterMap Node.line?).Pairwise (· ≤ ·) ∧
      ∃ e, ¬ ((parse tokens "").after.scopes.linesOf e).Pairwise (· ≤ ·) := by
  have habove : tokenize "BEGIN\n\nx:=1;)" "" = .ok (aboveGap ++ [.endAt 3 ⟨"", 13⟩]) := by
    decide +kernel
  have hbelow : tokenize ")x:=2 END." "" = .ok belowGap := by decide +kernel
  have h := tokenize_append habove hbelow (feeds_mem_gap (2 ^ 32 - 2)) (feeds_ne_empty (by decide))
  rw [List.map_congr_left fun t _ => Token.behind_feeds _ _ t] at h
  exact ⟨_, h, by decide +kernel, by decide +kernel, ⟨"x", 0⟩, by decide +kernel⟩

end PascalBlock
