import PascalBlock.Proofs.Node.Dump
import PascalBlock.Proofs.Node.Named
import PascalBlock.Proofs.Parser.Labelled

/-!
# Dumps determine trees

Main result: the dump of the tree of a source, however malformed, is a text of nested tags, and no
other tree of a source has the same dump, so long as no string goes over the end of a line. The dump
shows names, and not their places in the ledger; but these follow from the order in which the names
were read.
-/

namespace PascalBlock

open Text Node PascalBlock.Parser

variable {source source' name name' file file' : String} {tokens tokens' : List Token}
  {root root' : Node}

/-! ## Names and their references -/

theorem scopes_parse (tokens : List Token) (file : String) : (parse tokens file).after.scopes =
    (identifiers (consumed tokens (parse tokens file))).foldl ScopeStack.use .initial :=
  (readsProgram_parse tokens file).uses.scopes

/-- The names in a tree are those that were read. -/
theorem names_parse (tokens : List Token) (file : String) :
    names (parse tokens file).value.toList =
      ((identifiers (consumed tokens (parse tokens file))).map Token.name).map some := by
  have hrecords := records_parse tokens file
  rw [names, (recordsNames_parse tokens file).references, List.map_map, List.map_map]
  change List.map _ (identifiers ((Cursor.ofTokens tokens file).upTo _)) = _
  rw [upTo_eq_consumed]
  refine List.map_congr_left fun t ht => ?_
  obtain ⟨e, he⟩ := Option.isSome_iff_exists.1 ((hrecords.visible t.name).2 (.inr ⟨t, ht, rfl⟩))
  rw [Function.comp_apply, he, Option.map_some,
    (parse tokens file).after.keyed.name_eq he, Function.comp_apply]

/-- Trees of the same names have the same references. -/
theorem sameReferences_of_named
    (h : namedAll (parse tokens file).value.toList = namedAll (parse tokens' file').value.toList) :
    (parse tokens file).after.scopes.SameReferences (parse tokens' file').after.scopes := by
  have hnames := names_parse tokens' file'
  rw [← names_named, ← h, names_named, names_parse] at hnames
  rw [scopes_parse, scopes_parse]
  exact (ScopeStack.SameReferences.refl _).foldl
    (List.map_injective_iff.2 (Option.some_injective String) hnames)

theorem refers_parse (tokens : List Token) (file : String) :
    Refers (parse tokens file).after.scopes.lookup? (parse tokens file).value.toList :=
  (recordsNames_parse tokens file).shared

/-- **The tree of a source is known without the places of its names**. -/
theorem eq_of_named_parse (h : tokenize source name = .ok tokens)
    (h' : tokenize source' name' = .ok tokens') (hroot : (parse tokens file).value = some root)
    (hroot' : (parse tokens' file').value = some root') (hnamed : root.named = root'.named) :
    root = root' := by
  have hn := labelled_of_parse h hroot
  have hm := labelled_of_parse h' hroot'
  have hrefers := refers_parse tokens file
  have hrefers' := refers_parse tokens' file'
  have hsame : (parse tokens file).after.scopes.SameReferences
      (parse tokens' file').after.scopes := by
    refine sameReferences_of_named ?_
    simp [hroot, hroot', namedAll, hnamed]
  have hlookup := funext hsame.lookup?
  rw [hroot] at hrefers
  rw [hroot', ← hlookup] at hrefers'
  exact eq_of_named root root' hn hm hrefers hrefers' hnamed

/-! ## Dumps -/

/-- A text of tags for the nodes of a tree. -/
structure Marks (text : String) (root : Node) : Prop where
  /-- Every line is a tag behind four blanks for every level; one that closes is for the last open
  one, and the level of a tag is the number of open ones around it. -/
  nested : ∃ tags, lines text.toList = tags.map Tag.line ∧ Nested [] tags
  /-- There is a line for every node, and another one for a node with children. -/
  count : (lines text.toList).length =
    root.preorder.length + root.preorder.countP fun n => !n.children.isEmpty

theorem marks_dump (h : Labelled root) (hs : StringsAll Unbroken [root]) :
    Marks (dump (some root)) root := by
  have hlines := lines_dump h hs
  refine ⟨⟨tagsAt 0 root, hlines, ?_⟩, ?_⟩
  · have hnested := (nested_tagsAt root [] []).2 rfl
    rwa [List.append_nil] at hnested
  · rw [hlines, List.length_map, length_tagsAt]

/-- **The dump of a tree determines the tree**, and is a text of nested tags. -/
theorem dump_determines_the_tree (h : tokenize source name = .ok tokens)
    (h' : tokenize source' name' = .ok tokens') (hroot : (parse tokens file).value = some root)
    (hroot' : (parse tokens' file').value = some root') (hs : StringsAll Unbroken [root])
    (hs' : StringsAll Unbroken [root']) :
    Marks (dump (some root)) root ∧ (dump (some root) = dump (some root') → root = root') := by
  have hn := labelled_of_parse h hroot
  have hm := labelled_of_parse h' hroot'
  refine ⟨marks_dump hn hs, fun heq => ?_⟩
  exact eq_of_named_parse h h' hroot hroot' (named_of_dump hn hm hs hs' heq)

/-- `BEGIN x:=NOT END.` -/
def negatesNothing : List Token :=
  [⟨.beginWord, "BEGIN", none, 1, ⟨"", 0⟩, ⟨"", 5⟩⟩, ⟨.identifier, "x", none, 1, ⟨"", 6⟩, ⟨"", 7⟩⟩,
    ⟨.becomes, ":=", none, 1, ⟨"", 7⟩, ⟨"", 9⟩⟩, ⟨.notWord, "NOT", none, 1, ⟨"", 9⟩, ⟨"", 12⟩⟩,
    ⟨.endWord, "END", none, 1, ⟨"", 13⟩, ⟨"", 16⟩⟩, ⟨.dot, ".", none, 1, ⟨"", 16⟩, ⟨"", 17⟩⟩,
    .endAt 1 ⟨"", 17⟩]

/-- The same assignment in other letters, without the period. -/
def negatesNothingOpen : List Token :=
  [⟨.beginWord, "begin", none, 1, ⟨"", 0⟩, ⟨"", 5⟩⟩, ⟨.identifier, "X", none, 1, ⟨"", 6⟩, ⟨"", 7⟩⟩,
    ⟨.becomes, ":=", none, 1, ⟨"", 8⟩, ⟨"", 10⟩⟩, ⟨.notWord, "not", none, 1, ⟨"", 11⟩, ⟨"", 14⟩⟩,
    ⟨.endWord, "end", none, 1, ⟨"", 15⟩, ⟨"", 18⟩⟩, .endAt 1 ⟨"", 18⟩]

/-- The tree of either: the operator has nothing below it. -/
def negatesNothingTree : Node :=
  .mk .compound ⟨some (.line 1), none, none⟩ [.mk .assign ⟨some (.line 1), none, none⟩
    [.mk .variable ⟨none, some (.entry ⟨"x", 0⟩), none⟩ [], .mk .not .empty []]]

theorem negatesNothing_dump_determines_the_tree :
    Marks (dump (some negatesNothingTree)) negatesNothingTree ∧
      (dump (some negatesNothingTree) = dump (some negatesNothingTree) →
        negatesNothingTree = negatesNothingTree) := by
  have h : tokenize "BEGIN x:=NOT END." "" = .ok negatesNothing := by cbv
  have h' : tokenize "begin X := not end" "" = .ok negatesNothingOpen := by cbv
  have hroot : (parse negatesNothing "").value = some negatesNothingTree := by rfl
  have hroot' : (parse negatesNothingOpen "").value = some negatesNothingTree := by rfl
  have hs : StringsAll Unbroken [negatesNothingTree] := by
    simp [StringsAll, negatesNothingTree, literal?, Attributes.empty]
  exact dump_determines_the_tree h h' hroot hroot' hs hs

end PascalBlock
