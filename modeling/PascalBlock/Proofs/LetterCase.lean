import PascalBlock.CrossReference
import PascalBlock.Node.Source
import PascalBlock.Proofs.Parser.LetterCase

/-!
# Case does not count

Main result: where the case of letters is changed outside of the strings of a source that has
tokens, the tokens stay as they are but for their spelling, and the parse stays as it is but for the
spelling of what it flags.
-/

namespace PascalBlock

open Text Reader PascalBlock.Parser

/-- Two parses with the same tree, the same scopes and the same diagnostics, up to the case of what
these quote of the source; and the same texts of both. -/
structure ParsedAlike (parsed parsed' : Parsed (Option Node)) : Prop where
  tree : parsed'.value = parsed.value
  source : parsed'.value.map Node.source = parsed.value.map Node.source
  scopes : parsed'.after.scopes = parsed.after.scopes
  listing : CrossReference.listing parsed'.after.scopes =
    CrossReference.listing parsed.after.scopes
  diagnostics : parsed'.after.log.entries.map Diagnostic.folded =
    parsed.after.log.entries.map Diagnostic.folded

/-- Tokens that are alike in small letters are parsed alike. -/
theorem parsedAlike_of_folded {ts ts' : List Token} {e e' : Token} (he : e.kind = .endOfText)
    (he' : e'.kind = .endOfText)
    (h : (ts' ++ [e']).map Token.folded = (ts ++ [e]).map Token.folded) (file : String) :
    ParsedAlike (parse (ts ++ [e]) file) (parse (ts' ++ [e']) file) := by
  have hparse := parse_folded ts' he' file
  rw [h, parse_folded ts he file] at hparse
  obtain ⟨hvalue, hafter⟩ := Parsed.mk.inj hparse
  have hscopes := congrArg Parser.scopes hafter
  have hentries := congrArg (·.log.entries) hafter
  exact ⟨hvalue.symm, by rw [hvalue], hscopes.symm, congrArg _ hscopes.symm, hentries.symm⟩

/-- **Case does not count outside of strings**. -/
theorem case_does_not_count {source source' file : String} {tokens : List Token}
    (h : tokenize source file = .ok tokens) (hs : Recased source.toList source'.toList) :
    ∃ tokens', tokenize source' file = .ok tokens' ∧
      tokens'.map Token.folded = tokens.map Token.folded ∧
      ParsedAlike (parse tokens file) (parse tokens' file) := by
  obtain ⟨tokens', h', hfolded⟩ := tokenize_recased h hs
  obtain ⟨ts, r, -, -, rfl⟩ := walk_of_tokenize h
  obtain ⟨ts', r', -, -, rfl⟩ := walk_of_tokenize h'
  exact ⟨_, h', hfolded, parsedAlike_of_folded rfl rfl hfolded file⟩

/-- The tokens of a block with one assignment, and a comment in front of its `End`. -/
def assignSum : List Token :=
  [⟨.beginWord, "Begin", none, 1, ⟨"", 0⟩, ⟨"", 5⟩⟩, ⟨.identifier, "X", none, 1, ⟨"", 6⟩, ⟨"", 7⟩⟩,
    ⟨.becomes, ":=", none, 1, ⟨"", 7⟩, ⟨"", 9⟩⟩,
    ⟨.string, "'S'", some (.string "S"), 1, ⟨"", 9⟩, ⟨"", 12⟩⟩,
    ⟨.plus, "+", none, 1, ⟨"", 12⟩, ⟨"", 13⟩⟩,
    ⟨.real, "1E0", some (.real (.ofRank false (1023 * 2 ^ 52))), 1, ⟨"", 13⟩, ⟨"", 16⟩⟩,
    ⟨.endWord, "End", none, 1, ⟨"", 19⟩, ⟨"", 22⟩⟩, ⟨.dot, ".", none, 1, ⟨"", 22⟩, ⟨"", 23⟩⟩,
    .endAt 1 ⟨"", 23⟩]

/-- Words, a name, an exponent and a comment in other case, and the string as it is. -/
theorem case_does_not_count_in_assignSum :
    tokenize "Begin X:='S'+1E0\x7bC\x7dEnd." "" = .ok assignSum ∧
      Recased "Begin X:='S'+1E0\x7bC\x7dEnd.".toList "BEGIN x:='S'+1e0\x7bc\x7dend.".toList ∧
      ∃ tokens', tokenize "BEGIN x:='S'+1e0\x7bc\x7dend." "" = .ok tokens' ∧
        tokens'.map Token.folded = assignSum.map Token.folded ∧
        ParsedAlike (parse assignSum "") (parse tokens' "") := by
  have htokens : tokenize "Begin X:='S'+1E0\x7bC\x7dEnd." "" = .ok assignSum := by
    decide +kernel
  have hs : Recased "Begin X:='S'+1E0\x7bC\x7dEnd.".toList
      "BEGIN x:='S'+1e0\x7bc\x7dend.".toList :=
    recased_of_strings htokens (by decide +kernel) (by decide +kernel) (by decide +kernel)
  exact ⟨htokens, hs, case_does_not_count htokens hs⟩

end PascalBlock
