import PascalBlock.Proofs.Node.Brackets
import PascalBlock.Proofs.Parser.Partial
import PascalBlock.Proofs.RoundTrip

/-!
# The text of a partial tree

A parse with errors leaves a tree with gaps, and so its source text has gaps too: parentheses around
an operator that lacks an operand, or around nothing, and assignments without a value. Such a text is
still scanned (`lexes_partialExpression`, `lexes_partialStatement`). Main result: whatever a parse
flagged, the tokens of the text keep the tree, its operands in order and its blocks and operators as
pairs of brackets.
-/

namespace PascalBlock

open Text Grammar Node LexemeClass

variable {rest : List Char} {ns : List Node} {source name file : String} {tokens : List Token}
  {root : Node}

/-! ## Expressions -/

/-- In front of what cannot go on with it, the text of the node is scanned, and the tokens keep the
node. -/
def WrittenAsOperand (n : Node) : Prop :=
  ∀ rest, Stops goesOn rest → Lexes n.expressionText.toList rest (Keeps [n])

/-- A factor that opens no level is an operand. -/
theorem exists_operand_of_opens {ts : List Token} {o : Outline} (h : Opens .factor 0 ts o) :
    ∃ t leaf, ts = [t] ∧ t.asLeaf? = some leaf ∧ o = .operand leaf := by
  cases h with
  | operand ht => exact ⟨_, _, rfl, ht, rfl⟩

theorem lexes_operand {kind : NodeKind} {a : Attributes} (h : IsExpression (mk kind a [])) :
    WrittenAsOperand (mk kind a []) := by
  intro rest hr
  have hopened : (mk kind a []).opened = 0 := by cases h <;> rfl
  refine (lexes_expression h hr).mono fun ts hts => ?_
  rw [hopened] at hts
  obtain ⟨t, leaf, rfl, ht, ho⟩ := exists_operand_of_opens hts
  rw [outline_eq] at ho
  exact .operand ht (Outline.mk.inj ho).2.1

/-- One operand at most, in front of a closing parenthesis. -/
theorem lexes_atMostOne (hlen : ns.length ≤ 1) (h : ∀ n ∈ ns, WrittenAsOperand n) :
    Lexes (String.join (expressionTexts ns)).toList (')' :: rest) (Keeps ns) := by
  match ns, hlen with
  | [], _ => exact lexes_nil .nil
  | [n], _ =>
    have hn := h n (List.mem_singleton_self n) (')' :: rest) (stops_goesOn (by simp))
    simpa [expressionTexts, String.join] using hn

/-- Two operands at most with an operator between them, in front of a closing parenthesis. -/
theorem lexes_atMostTwo {prec : Precedence} {token : TokenKind} {kind : NodeKind} {symbol : String}
    (hk : Operator prec token kind) (hs : kind.binarySymbol? = some symbol) (hlen : ns.length ≤ 2)
    (h : ∀ n ∈ ns, WrittenAsOperand n) :
    Lexes ((" " ++ symbol ++ " ").intercalate (expressionTexts ns)).toList (')' :: rest)
      (Keeps ns) := by
  match ns, hlen with
  | [], _ => exact lexes_nil .nil
  | [n], _ => exact h n (List.mem_singleton_self n) _ (stops_goesOn (by simp))
  | [left, right], _ =>
    rw [List.forall_mem_cons, List.forall_mem_singleton] at h
    have htext : ((" " ++ symbol ++ " ").intercalate (expressionTexts [left, right])).toList =
        left.expressionText.toList ++
          ' ' :: (symbol.toList ++ ' ' :: right.expressionText.toList) := by
      have hpair (s a b : String) : s.intercalate [a, b] = a ++ s ++ b := rfl
      simp only [expressionTexts, hpair]
      simp
    rw [htext]
    refine (h.1 _ (stops_goesOn (by simp))).append fun ts hts => .blank rfl ?_
    refine (lexesAs_operator hk hs).cons fun t ht => .blank rfl ?_
    refine (h.2 _ (stops_goesOn (by simp))).mono fun us hus => ?_
    have hfiller : t.kind.isFiller = true := by
      rw [ht.kind]
      cases hk <;> rfl
    exact hts.append ((Keeps.filler hfiller).append hus)

/-- Parentheses around the operands of an operator, whose sign may stand in front of them. -/
theorem lexes_operator {kind : NodeKind} {a : Attributes} {xs : List Char}
    (hk : kind.isOperator = true) (h : Lexes xs (')' :: rest) (Keeps ns)) :
    Lexes ('(' :: (xs ++ [')'])) rest (Keeps [mk kind a ns]) := by
  have hopen : LexesAs ['('] (xs ++ [')'] ++ rest) .leftParen none := lexesAs_symbol rfl
  have hclose : LexesAs [')'] rest .rightParen none := lexesAs_symbol rfl
  refine hopen.cons fun l hl => ?_
  rw [← List.singleton_append] at h
  exact h.append fun ts hts => hclose.lexes fun r hr => hts.operator hk hl.kind hr.kind

/-- **A partial expression is scanned**, and its tokens keep it. -/
theorem lexes_partialExpression {n : Node} (h : IsPartialExpression n) : WrittenAsOperand n := by
  induction h with
  | operand h => exact lexes_operand h
  | @unary kind a ns hk hlen _ ih =>
    intro rest _
    have hoperands : Lexes (String.join (expressionTexts ns)).toList (')' :: rest) (Keeps ns) :=
      lexes_atMostOne hlen ih
    rcases hk with rfl | rfl
    · have htext : (mk .negate a ns).expressionText.toList =
          '(' :: (['-'] ++ (String.join (expressionTexts ns)).toList ++ [')']) := by
        simp [expressionText, expressionOver]
      have hminus : LexesAs ['-'] ((String.join (expressionTexts ns)).toList ++ ')' :: rest)
          .minus none := lexesAs_symbol rfl
      rw [htext]
      refine lexes_operator rfl (hminus.cons fun t ht => hoperands.mono fun ts hts => ?_)
      exact (Keeps.filler (by rw [ht.kind]; rfl)).append hts
    · have htext : (mk .not a ns).expressionText.toList =
          '(' :: (['N', 'O', 'T'] ++ ' ' :: (String.join (expressionTexts ns)).toList ++ [')']) := by
        simp [expressionText, expressionOver]
      have hnot : LexesAs ['N', 'O', 'T']
          (' ' :: (String.join (expressionTexts ns)).toList ++ ')' :: rest) .notWord none :=
        lexesAs_word rfl rfl (stops_cons.2 rfl)
      rw [htext]
      refine lexes_operator rfl (hnot.cons fun t ht => .blank rfl ?_)
      exact hoperands.mono fun ts hts => (Keeps.filler (by rw [ht.kind]; rfl)).append hts
  | @binary prec token kind a ns hk hlen _ ih =>
    intro rest _
    obtain ⟨symbol, hs⟩ := exists_binarySymbol? hk
    have htext : (mk kind a ns).expressionText.toList =
        '(' :: (((" " ++ symbol ++ " ").intercalate (expressionTexts ns)).toList ++ [')']) := by
      have hover : (mk kind a ns).expressionText =
          "(" ++ (" " ++ symbol ++ " ").intercalate (expressionTexts ns) ++ ")" := by
        cases hk <;> cases hs <;> rfl
      rw [hover]
      simp
    rw [htext]
    exact lexes_operator (by cases hk <;> rfl) (lexes_atMostTwo hk hs hlen ih)

/-! ## Statements -/

/-- In front of what cannot go on with it, the text of the statement is scanned, and the tokens keep
the statement. -/
def WrittenPartly (n : Node) : Prop :=
  ∀ (depth : Nat) {rest : List Char}, Stops goesOn rest →
    Lexes (statementText depth n).toList rest (Keeps [n])

/-- A target and its value, if there is one. -/
theorem lexes_partialAssign {a : Attributes} {target : Node} (ht : WrittenAsOperand target)
    (hlen : ns.length ≤ 1) (hv : ∀ n ∈ ns, WrittenAsOperand n) :
    WrittenPartly (mk .assign a (target :: ns)) := by
  intro depth rest hr
  have hbecomes (cs : List Char) : LexesAs [':', '='] (' ' :: cs) .becomes none :=
    lexesAs_symbol rfl
  have hvalue : Lexes (((ns[0]?).map expressionText).getD "").toList rest (Keeps ns) := by
    match ns, hlen with
    | [], _ => exact lexes_nil .nil
    | [n], _ => exact hv n (List.mem_singleton_self n) rest hr
  have htext : (statementText depth (mk .assign a (target :: ns))).toList =
      target.expressionText.toList ++
        ' ' :: ([':', '='] ++ ' ' :: (((ns[0]?).map expressionText).getD "").toList) := by
    simp [statementText, assignmentText]
  rw [htext]
  refine (ht _ (stops_goesOn (by simp))).append fun ts hts => .blank rfl ?_
  refine (hbecomes _).cons fun s hs => .blank rfl (hvalue.mono fun us hus => ?_)
  have hfiller := Keeps.filler (t := s) (by rw [hs.kind]; rfl)
  exact (hts.append (hfiller.append hus)).statement (.inl rfl)

/-- **The lines of a block are scanned**, and their tokens keep its statements. -/
theorem lexes_partialLines (h : ∀ n ∈ ns, WrittenPartly n) (depth : Nat) :
    ∀ rest : List Char, Lexes (statementLines depth ns).toList rest (Keeps ns) := by
  induction ns with
  | nil => exact fun _ => lexes_nil .nil
  | cons n ns ih =>
    intro rest
    rw [List.forall_mem_cons] at h
    have hlines := ih h.2 rest
    rw [toList_lines_cons]
    refine .blanks (blank_indent depth) ?_
    rw [lineEnd]
    split
    · have hsemicolon : LexesAs [';'] ('\n' :: (statementLines depth ns).toList ++ rest)
          .semicolon none := lexesAs_symbol rfl
      refine (h.1 depth (stops_goesOn (by simp))).append fun ts hts => ?_
      refine hsemicolon.cons fun s hs => .blank rfl (hlines.mono fun us hus => ?_)
      have hfiller := Keeps.filler (t := s) (by rw [hs.kind]; rfl)
      exact hts.append (hfiller.append hus)
    · refine (h.1 depth (stops_goesOn (by simp))).append fun ts hts => ?_
      exact .blank rfl (hlines.mono fun us hus => hts.append hus)

/-- A block is scanned, and it may stand in front of a period. -/
theorem lexes_partialBlock (h : ∀ n ∈ ns, WrittenPartly n) (a : Attributes) (depth : Nat)
    (hr : Stops isWordRest rest) :
    Lexes (statementText depth (mk .compound a ns)).toList rest (Keeps [mk .compound a ns]) := by
  have hbegin (cs : List Char) : LexesAs ['B', 'E', 'G', 'I', 'N'] ('\n' :: cs) .beginWord none :=
    lexesAs_word rfl rfl (stops_cons.2 rfl)
  have hend : LexesAs ['E', 'N', 'D'] rest .endWord none := lexesAs_word rfl rfl hr
  rw [toList_compound]
  refine (hbegin _).cons fun b hb => .blank rfl ?_
  refine (lexes_partialLines h (depth + 1) _).append fun ts hts => ?_
  exact .blanks (blank_indent depth) (hend.lexes fun e he => hts.block hb.kind he.kind)

/-- **A partial statement is scanned**, and its tokens keep it. -/
theorem lexes_partialStatement {n : Node} (h : IsPartialStatement n) : WrittenPartly n := by
  induction h with
  | @noOp a =>
    intro depth rest _
    rw [toList_noOp]
    exact lexes_nil (Keeps.nil.statement (.inr rfl))
  | @assign a target ns ht hk hlen hv =>
    cases ht with
    | name ha hn =>
      exact lexes_partialAssign (lexes_operand (.name ha hn)) hlen
        fun n hmem => lexes_partialExpression (hv n hmem)
    | binary hk' =>
      cases hk
      cases hk'
    | _ => cases hk
  | @compound a ns _ ih =>
    intro depth rest hr
    exact lexes_partialBlock ih a depth (stops_wordRest hr)

/-- A block with a period behind it is scanned. -/
theorem lexes_partialProgram (h : IsPartialStatement root) (hk : root.kind = .compound) :
    Lexes (root.source.toList ++ ['.']) [] (Keeps [root]) := by
  cases h with
  | @compound a ns hns =>
    have hdot : LexesAs ['.'] [] .dot none := lexesAs_symbol rfl
    refine (lexes_partialBlock (fun n hn => lexes_partialStatement (hns n hn)) a 0
      (stops_cons.2 rfl)).append fun ts hts => hdot.lexes fun d hd => ?_
    simpa using hts.append (Keeps.filler (t := d) (by rw [hd.kind]; rfl))
  | _ => cases hk

/-! ## Whole parses -/

/-- **The text of any tree is scanned**. Whatever a parse of a source flagged, the source text of
its tree, with a period behind it, is tokenized. The operands of the tree stand among the tokens in
order; `BEGIN` and `END` are properly nested, with one pair for every block, and parentheses with one
pair for every operator. -/
theorem recovered_tree_is_scanned (h : tokenize source name = .ok tokens)
    (hroot : (parse tokens file).value = some root) (name' : String) :
    ∃ again, tokenize (root.source ++ ".") name' = .ok again ∧
      again.filterMap Token.asLeaf? = leaves [root] ∧
      bracketSteps .beginWord .endWord again = (root.brackets NodeKind.isBlock).toList ∧
      (root.brackets NodeKind.isBlock).semilength = root.preorder.countP (·.kind == .compound) ∧
      bracketSteps .leftParen .rightParen again = (root.brackets NodeKind.isOperator).toList ∧
      (root.brackets NodeKind.isOperator).semilength = root.preorder.countP (·.kind.isOperator) := by
  obtain ⟨hpartial, hk⟩ := isPartialStatement_of_parse h hroot
  obtain ⟨ts, last, hts, hlast, hkeeps⟩ := tokenize_of_lexes (lexes_partialProgram hpartial hk) name'
  have htext : String.ofList (root.source.toList ++ ['.']) = root.source ++ "." := by
    rw [String.ofList_append, String.ofList_toList]
  have hall : Keeps [root] (ts ++ [last]) := by
    simpa using hkeeps.append (Keeps.filler (t := last) (by rw [hlast]; rfl))
  refine ⟨ts ++ [last], htext ▸ hts, hall.leaves, ?_, semilength_brackets root, ?_,
    semilength_brackets root⟩
  · simpa using hall.blocks
  · simpa using hall.operators

/-- The tokens of a block that is not closed, with a product that lacks its first factor. -/
def negatedGap : List Token :=
  [⟨.beginWord, "BEGIN", none, 1, ⟨"", 0⟩, ⟨"", 5⟩⟩, ⟨.identifier, "x", none, 1, ⟨"", 6⟩, ⟨"", 7⟩⟩,
    ⟨.becomes, ":=", none, 1, ⟨"", 7⟩, ⟨"", 9⟩⟩, ⟨.minus, "-", none, 1, ⟨"", 9⟩, ⟨"", 10⟩⟩,
    ⟨.star, "*", none, 1, ⟨"", 10⟩, ⟨"", 11⟩⟩,
    ⟨.string, "'a'", some (.string "a"), 1, ⟨"", 11⟩, ⟨"", 14⟩⟩, .endAt 1 ⟨"", 14⟩]

/-- The tree of these tokens. -/
def negatedGapTree : Node :=
  .mk .compound ⟨some (.line 1), none, none⟩ [
    .mk .assign ⟨some (.line 1), none, none⟩ [
      .mk .variable ⟨none, some (.entry ⟨"x", 0⟩), none⟩ [],
      .mk .negate .empty [
        .mk .multiply .empty [
          .mk .stringConstant ⟨none, none, some (.literal (.string "a"))⟩ []]]]]

theorem negatedGap_is_scanned :
    tokenize "BEGIN x:=-*'a'" "" = .ok negatedGap ∧
      (parse negatedGap "").value = some negatedGapTree ∧
      ∃ again, tokenize (negatedGapTree.source ++ ".") "" = .ok again ∧
        again.filterMap Token.asLeaf? = leaves [negatedGapTree] ∧
        bracketSteps .beginWord .endWord again = [.U, .D] ∧
        bracketSteps .leftParen .rightParen again = [.U, .U, .D, .D] := by
  have htokens : tokenize "BEGIN x:=-*'a'" "" = .ok negatedGap := by cbv
  have hroot : (parse negatedGap "").value = some negatedGapTree := by rfl
  obtain ⟨again, hagain, hleaves, hblocks, -, hoperators, -⟩ :=
    recovered_tree_is_scanned htokens hroot ""
  exact ⟨htokens, hroot, again, hagain, hleaves, hblocks.trans (by rfl), hoperators.trans (by rfl)⟩

end PascalBlock
