import PascalBlock.Proofs.Node.Shape
import PascalBlock.Proofs.Parser.Labelled

/-!
# Shapes tell trees apart

Main result: the trees of two sources have one shape with kinds just when they have one outline, so
long as no string in them has a quote where it would look like the one that closes the string. A
string with such a quote can spell a part of a shape, and two programs that say different things
then have one shape (`spelledAssignment_has_one_shape`).
-/

namespace PascalBlock

open Node PascalBlock.Parser

variable {source source' name name' file file' : String} {tokens tokens' : List Token}
  {root root' : Node}

/-- **The shape of a tree tells its outline**, and nothing more, where the strings in it show their
ends: kinds, children in their order, names and values. -/
theorem shape_tells_the_outline (h : tokenize source name = .ok tokens)
    (h' : tokenize source' name' = .ok tokens') (hroot : (parse tokens file).value = some root)
    (hroot' : (parse tokens' file').value = some root') (hs : StringsAll ClosesOnce [root])
    (hs' : StringsAll ClosesOnce [root']) :
    root.kindShape = root'.kindShape ↔ root.outline = root'.outline := by
  have hlabels := labelled_of_parse h hroot
  have hlabels' := labelled_of_parse h' hroot'
  exact ⟨outline_of_kindShape hlabels hlabels' hs hs', kindShape_congr root root'⟩

/-- `BEGIN x:='it''s' END.` -/
def assignQuote : List Token :=
  [⟨.beginWord, "BEGIN", none, 1, ⟨"", 0⟩, ⟨"", 5⟩⟩, ⟨.identifier, "x", none, 1, ⟨"", 6⟩, ⟨"", 7⟩⟩,
    ⟨.becomes, ":=", none, 1, ⟨"", 7⟩, ⟨"", 9⟩⟩,
    ⟨.string, "'it''s'", some (.string "it's"), 1, ⟨"", 9⟩, ⟨"", 16⟩⟩,
    ⟨.endWord, "END", none, 1, ⟨"", 17⟩, ⟨"", 20⟩⟩, ⟨.dot, ".", none, 1, ⟨"", 20⟩, ⟨"", 21⟩⟩,
    .endAt 1 ⟨"", 21⟩]

/-- The same assignment over three lines, in other letters. -/
def assignQuoteLines : List Token :=
  [⟨.beginWord, "begin", none, 1, ⟨"", 0⟩, ⟨"", 5⟩⟩, ⟨.identifier, "X", none, 2, ⟨"", 8⟩, ⟨"", 9⟩⟩,
    ⟨.becomes, ":=", none, 2, ⟨"", 10⟩, ⟨"", 12⟩⟩,
    ⟨.string, "'it''s'", some (.string "it's"), 2, ⟨"", 13⟩, ⟨"", 20⟩⟩,
    ⟨.endWord, "end", none, 3, ⟨"", 21⟩, ⟨"", 24⟩⟩, ⟨.dot, ".", none, 3, ⟨"", 24⟩, ⟨"", 25⟩⟩,
    .endAt 3 ⟨"", 25⟩]

/-- The tree of either, with the line of the assignment and the table's entry for the name. -/
def assignQuoteTree (line : UInt32) : Node :=
  .mk .compound ⟨some (.line 1), none, none⟩ [.mk .assign ⟨some (.line line), none, none⟩
    [.mk .variable ⟨none, some (.entry ⟨"x", 0⟩), none⟩ [],
      .mk .stringConstant ⟨none, none, some (.literal (.string "it's"))⟩ []]]

theorem closesOnce_assignQuoteTree (line : UInt32) :
    StringsAll ClosesOnce [assignQuoteTree line] := by
  have hquote : ClosesOnce "it's" := by decide
  simpa [StringsAll, assignQuoteTree, literal?] using hquote

theorem assignQuote_shape_tells_the_outline :
    (assignQuoteTree 1).kindShape = (assignQuoteTree 2).kindShape ↔
      (assignQuoteTree 1).outline = (assignQuoteTree 2).outline := by
  have h : tokenize "BEGIN x:='it''s' END." "" = .ok assignQuote := by cbv
  have h' : tokenize "begin\n  X := 'it''s'\nend." "" = .ok assignQuoteLines := by cbv
  have hroot : (parse assignQuote "").value = some (assignQuoteTree 1) := by rfl
  have hroot' : (parse assignQuoteLines "").value = some (assignQuoteTree 2) := by rfl
  exact shape_tells_the_outline h h' hroot hroot' (closesOnce_assignQuoteTree 1)
    (closesOnce_assignQuoteTree 2)

/-- `BEGIN x:='a';y:='b' END.` -/
def assignTwice : List Token :=
  [⟨.beginWord, "BEGIN", none, 1, ⟨"", 0⟩, ⟨"", 5⟩⟩, ⟨.identifier, "x", none, 1, ⟨"", 6⟩, ⟨"", 7⟩⟩,
    ⟨.becomes, ":=", none, 1, ⟨"", 7⟩, ⟨"", 9⟩⟩,
    ⟨.string, "'a'", some (.string "a"), 1, ⟨"", 9⟩, ⟨"", 12⟩⟩,
    ⟨.semicolon, ";", none, 1, ⟨"", 12⟩, ⟨"", 13⟩⟩, ⟨.identifier, "y", none, 1, ⟨"", 13⟩, ⟨"", 14⟩⟩,
    ⟨.becomes, ":=", none, 1, ⟨"", 14⟩, ⟨"", 16⟩⟩,
    ⟨.string, "'b'", some (.string "b"), 1, ⟨"", 16⟩, ⟨"", 19⟩⟩,
    ⟨.endWord, "END", none, 1, ⟨"", 20⟩, ⟨"", 23⟩⟩, ⟨.dot, ".", none, 1, ⟨"", 23⟩, ⟨"", 24⟩⟩,
    .endAt 1 ⟨"", 24⟩]

/-- One assignment, of a string that spells the rest of the shape of both. -/
def assignSpelled : List Token :=
  [⟨.beginWord, "BEGIN", none, 1, ⟨"", 0⟩, ⟨"", 5⟩⟩, ⟨.identifier, "x", none, 1, ⟨"", 6⟩, ⟨"", 7⟩⟩,
    ⟨.becomes, ":=", none, 1, ⟨"", 7⟩, ⟨"", 9⟩⟩,
    ⟨.string, "'a''), ASSIGN(VARIABLE y, STRING_CONSTANT ''b'",
      some (.string "a'), ASSIGN(VARIABLE y, STRING_CONSTANT 'b"), 1, ⟨"", 9⟩, ⟨"", 55⟩⟩,
    ⟨.endWord, "END", none, 1, ⟨"", 56⟩, ⟨"", 59⟩⟩, ⟨.dot, ".", none, 1, ⟨"", 59⟩, ⟨"", 60⟩⟩,
    .endAt 1 ⟨"", 60⟩]

/-- Without the condition on the strings, programs of one shape can say different things. -/
theorem spelledAssignment_has_one_shape :
    tokenize "BEGIN x:='a';y:='b' END." "" = .ok assignTwice ∧
      tokenize "BEGIN x:='a''), ASSIGN(VARIABLE y, STRING_CONSTANT ''b' END." "" =
        .ok assignSpelled ∧
      (parse assignTwice "").after.log.entries = #[] ∧
      (parse assignSpelled "").after.log.entries = #[] ∧
      ∃ root root', (parse assignTwice "").value = some root ∧
        (parse assignSpelled "").value = some root' ∧
        root.kindShape = root'.kindShape ∧ root.outline ≠ root'.outline := by
  have h : tokenize "BEGIN x:='a';y:='b' END." "" = .ok assignTwice := by cbv
  have h' : tokenize "BEGIN x:='a''), ASSIGN(VARIABLE y, STRING_CONSTANT ''b' END." "" =
      .ok assignSpelled := by cbv
  refine ⟨h, h', by decide +kernel, by decide +kernel, _, _, rfl, rfl, by decide +kernel, ?_⟩
  intro houtline
  have hcount := length_children_of_outline houtline
  revert hcount
  decide +kernel

end PascalBlock
