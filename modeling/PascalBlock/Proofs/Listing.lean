import PascalBlock.Proofs.Parser.Accepted
import PascalBlock.Proofs.Parser.TooDeep
import PascalBlock.Proofs.Parser.Undefined
import PascalBlock.Proofs.RoundTrip

/-!
# The listing of a program

The listing is the source text of the tree with a period behind it. It is written with parentheses
around every operator, also where the program has none, so it may open more levels than the program
does. Main result: the listing of an accepted program is accepted, with the same tree, as long as it
opens no more levels than a parse allows; otherwise it is flagged as nested too deep.
-/

namespace PascalBlock

open Text Node PascalBlock.Parser

/-- How the listing of `root` is read: as `tokens`, which are flagged as nested too deep just when
the text opens too many levels, and else make up the same tree. -/
structure ReadsListing (root : Node) (file : String) (tokens : List Token) : Prop where
  scanned : tokenize (root.source ++ ".") file = .ok tokens
  tooDeep : TooDeep (parse tokens file).after.log.entries.toList ↔ maxNesting < root.opened
  accepted : root.opened ≤ maxNesting →
    (parse tokens file).after.log.entries = #[] ∧
      ∃ again, (parse tokens file).value = some again ∧ again.outline = root.outline ∧
        again.source = root.source

variable {tokens again : List Token} {file file' : String} {root : Node}

/-- A block of statements is read back up to where it runs out of levels. -/
theorem exists_listing (hs : IsStatement root) (hk : root.kind = .compound) (file : String) :
    ∃ tokens, tokenize (root.source ++ ".") file = .ok tokens ∧
      (TooDeep (parse tokens file).after.log.entries.toList ↔ maxNesting < root.opened) ∧
      (root.opened ≤ maxNesting → Clean (parse tokens file).after.log.entries.toList ∧
        (parse tokens file).value.map outline = some root.outline) := by
  obtain ⟨ts, last, hts, hlast, hopens⟩ := tokenize_of_lexes (lexes_block hs hk) file
  have htext : String.ofList (root.source.toList ++ ['.']) = root.source ++ "." := by
    rw [String.ofList_append, String.ofList_toList]
  have ha : (Cursor.ofTokens (ts ++ [last]) file).ahead = ts ++ [] := by
    rw [ofTokens_ahead hlast file, List.append_nil]
  refine ⟨ts ++ [last], htext ▸ hts, tooDeep_parse_iff file ha hopens, fun hn => ?_⟩
  obtain ⟨hc, -, hv⟩ := parse_of_derivesProgram (ts ++ [last]) file ha (hopens.derives hn)
  exact ⟨hc, hv⟩

/-- Where all names are known in one of two programs of the same outline, they are in the other. -/
theorem entries_eq_nil_of_outline (hlog : (parse tokens file).after.log.entries = #[])
    (hc : Clean (parse again file').after.log.entries.toList)
    (ho : (parse again file').value.map outline = (parse tokens file).value.map outline) :
    (parse again file').after.log.entries = #[] := by
  obtain ⟨uses, h⟩ := flagsNames_parse tokens file
  obtain ⟨more, h'⟩ := flagsNames_parse again file'
  have hroles : Node.roles (parse again file').value.toList =
      Node.roles (parse tokens file).value.toList := by
    refine rolesAll_congr .operand _ _ ?_
    rw [outlines_eq_map, outlines_eq_map, ← Option.toList_map, ← Option.toList_map, ho]
  refine Array.toList_eq_nil_iff.1 (List.eq_nil_iff_forall_not_mem.2 fun d hd => ?_)
  obtain ⟨name, hname⟩ := hc d hd
  obtain ⟨e, he, -⟩ := (h'.congr h rfl hroles name).1 ⟨d, hd, hname⟩
  rw [hlog] at he
  cases he

theorem readsListing_of_isStatement (hroot : (parse tokens file).value = some root)
    (hlog : (parse tokens file).after.log.entries = #[]) (hs : IsStatement root)
    (hk : root.kind = .compound) (file' : String) : ∃ again, ReadsListing root file' again := by
  obtain ⟨again, hscan, hdeep, haccepted⟩ := exists_listing hs hk file'
  refine ⟨again, hscan, hdeep, fun hn => ?_⟩
  obtain ⟨hclean, hv⟩ := haccepted hn
  refine ⟨entries_eq_nil_of_outline hlog hclean ?_, ?_⟩
  · rw [hv, hroot, Option.map_some]
  · obtain ⟨tree, htree, ho⟩ := Option.map_eq_some_iff.1 hv
    exact ⟨tree, htree, ho, source_congr ho⟩

/-! ## Accepted programs -/

theorem clean_of_entries (hlog : (parse tokens file).after.log.entries = #[]) :
    Clean (parse tokens file).after.log.entries.toList := by
  rw [hlog]
  exact clean_nil

/-- The only operands are the name `x` and the number one. -/
theorem lexical_of_xOne {t : Token} (h : t.kind ∉ TokenKind.operands ∨
    t.kind = .identifier ∧ t.text = "x" ∨ t.kind = .integer ∧ t.literal = some (.integer 1)) :
    t.Lexical := by
  rcases h with h | ⟨hk, htext⟩ | ⟨hk, hliteral⟩
  · exact Token.lexical_of_notMem h
  · have hx : IsName "x" := ⟨⟨'x', [], by decide, by decide, by simp⟩, by decide⟩
    have hname : IsName t.name := by
      rw [Token.name, htext, hx.lowercase]
      exact hx
    exact Token.lexical_of_name hk hname
  · exact Token.lexical_of_integer hk hliteral (by decide)

/-- **The listing of an accepted program is accepted, unless it opens too many levels**. The tokens
carry what goes with their kinds, as those of a source do. -/
theorem listing_is_read (hroot : (parse tokens file).value = some root)
    (hlog : (parse tokens file).after.log.entries = #[])
    (ht : ∀ t ∈ consumed tokens (parse tokens file), t.Lexical) (file' : String) :
    ∃ again, ReadsListing root file' again := by
  obtain ⟨hs, hk⟩ := isStatement_of_parse hroot (clean_of_entries hlog) ht
  exact readsListing_of_isStatement hroot hlog hs hk file'

theorem assignOne_listing_is_read :
    (parse assignOne "").after.log.entries = #[] ∧ ∃ root, (parse assignOne "").value = some root ∧
      ∃ again, ReadsListing root "" again := by
  have hlog : (parse assignOne "").after.log.entries = #[] := by decide +kernel
  have hsome : (parse assignOne "").value.isSome := by decide +kernel
  obtain ⟨root, hroot⟩ := Option.isSome_iff_exists.1 hsome
  have hall : ∀ t ∈ assignOne, t.Lexical := fun t h => lexical_of_xOne (by revert t; decide)
  have ht := fun t h => hall t (consumed_subset assignOne (parse assignOne "") h)
  exact ⟨hlog, root, hroot, listing_is_read hroot hlog ht ""⟩

/-- The tokens of `x := not not … 1` in a block, with 64 times `not`. -/
def sixtyFourNots : List Token :=
  [⟨.beginWord, "BEGIN", none, 1, ⟨"", 0⟩, ⟨"", 5⟩⟩,
    ⟨.identifier, "x", none, 2, ⟨"", 10⟩, ⟨"", 11⟩⟩,
    ⟨.becomes, ":=", none, 2, ⟨"", 12⟩, ⟨"", 14⟩⟩] ++
  (List.range 64).map (fun i =>
    ⟨.notWord, "NOT", none, 2, ⟨"", .ofNat (15 + 4 * i)⟩, ⟨"", .ofNat (18 + 4 * i)⟩⟩) ++
  [⟨.integer, "1", some (.integer 1), 2, ⟨"", 271⟩, ⟨"", 272⟩⟩,
    ⟨.endWord, "END", none, 3, ⟨"", 273⟩, ⟨"", 276⟩⟩,
    ⟨.dot, ".", none, 3, ⟨"", 276⟩, ⟨"", 277⟩⟩, .endAt 3 ⟨"", 277⟩]

theorem sixtyFourNots_listing_is_too_deep :
    (parse sixtyFourNots "").after.log.entries = #[] ∧
      ∃ root, (parse sixtyFourNots "").value = some root ∧
        ∃ again, tokenize (root.source ++ ".") "" = .ok again ∧
          TooDeep (parse again "").after.log.entries.toList := by
  have hlog : (parse sixtyFourNots "").after.log.entries = #[] := by decide +kernel
  have hopened : (parse sixtyFourNots "").value.map opened = some 129 := by decide +kernel
  obtain ⟨root, hroot, hlevels⟩ := Option.map_eq_some_iff.1 hopened
  have hall : ∀ t ∈ sixtyFourNots, t.Lexical :=
    fun t h => lexical_of_xOne (by revert t; decide +kernel)
  have ht := fun t h => hall t (consumed_subset _ (parse sixtyFourNots "") h)
  obtain ⟨hs, hk⟩ := isStatement_of_parse hroot (clean_of_entries hlog) ht
  obtain ⟨again, hscan, hdeep, -⟩ := exists_listing hs hk ""
  exact ⟨hlog, root, hroot, again, hscan, hdeep.2 (by rw [hlevels]; decide)⟩

end PascalBlock
