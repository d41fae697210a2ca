import PascalBlock.Node.Source
import PascalBlock.Proofs.Grammar

/-!
# The text of a tree

What the pieces of the source text are, as lists of characters, and that the text says nothing but
the outline of the tree (`source_congr`).
-/

namespace PascalBlock.Node

/-! ## Pieces of the text -/

theorem expressionText_variable (a : Attributes) {ref : EntryRef} (ha : a.id = some (.entry ref)) :
    (mk .variable a []).expressionText = ref.name := by
  simp [expressionText, expressionOver, entry?, ha]

theorem expressionText_integer (a : Attributes) {l : Literal} (ha : a.value = some (.literal l)) :
    (mk .integerConstant a []).expressionText = l.text := by
  simp [expressionText, expressionOver, literal?, ha]

theorem expressionText_real (a : Attributes) {l : Literal} (ha : a.value = some (.literal l)) :
    (mk .realConstant a []).expressionText = l.text := by
  simp [expressionText, expressionOver, literal?, ha]

theorem expressionText_string (a : Attributes) {s : String}
    (ha : a.value = some (.literal (.string s))) :
    (mk .stringConstant a []).expressionText = quoteString s := by
  simp [expressionText, expressionOver, literal?, ha, Literal.text]

theorem toList_negate (a : Attributes) (n : Node) :
    (mk .negate a [n]).expressionText.toList =
      '(' :: '-' :: (n.expressionText.toList ++ [')']) := by
  simp [expressionText, expressionTexts, expressionOver, String.join]

theorem toList_not (a : Attributes) (n : Node) :
    (mk .not a [n]).expressionText.toList =
      '(' :: (['N', 'O', 'T'] ++ ' ' :: (n.expressionText.toList ++ [')'])) := by
  simp [expressionText, expressionTexts, expressionOver, String.join]

/-- An operator has a symbol. -/
theorem exists_binarySymbol? {prec : Grammar.Precedence} {token : TokenKind} {kind : NodeKind}
    (h : Grammar.Operator prec token kind) : ∃ symbol, kind.binarySymbol? = some symbol := by
  cases h <;> exact ⟨_, rfl⟩

theorem toList_binary {prec : Grammar.Precedence} {token : TokenKind} {kind : NodeKind}
    {symbol : String} (hk : Grammar.Operator prec token kind)
    (hs : kind.binarySymbol? = some symbol) (a : Attributes) (left right : Node) :
    (mk kind a [left, right]).expressionText.toList =
      '(' :: (left.expressionText.toList ++ ' ' :: (symbol.toList ++ ' ' ::
        (right.expressionText.toList ++ [')']))) := by
  have htext : (mk kind a [left, right]).expressionText =
      "(" ++ (" " ++ symbol ++ " ").intercalate [left.expressionText, right.expressionText] ++
        ")" := by
    cases hk <;> cases hs <;> rfl
  have hpair (s a b : String) : s.intercalate [a, b] = a ++ s ++ b := rfl
  rw [htext, hpair]
  simp

/-- An assignment to a variable. -/
theorem toList_assign (depth : Nat) (a : Attributes) (target value : Node) :
    (statementText depth (mk .assign a [target, value])).toList =
      target.expressionText.toList ++ ' ' :: ':' :: '=' :: ' ' :: value.expressionText.toList := by
  simp [statementText, assignmentText]

theorem toList_noOp (depth : Nat) (a : Attributes) (ns : List Node) :
    (statementText depth (mk .noOp a ns)).toList = [] := by
  simp [statementText]

theorem toList_compound (depth : Nat) (a : Attributes) (ns : List Node) :
    (statementText depth (mk .compound a ns)).toList =
      ['B', 'E', 'G', 'I', 'N'] ++ '\n' :: ((statementLines (depth + 1) ns).toList ++
        ((indent depth).toList ++ ['E', 'N', 'D'])) := by
  simp [statementText]

/-- What ends a line of a block: a semicolon, unless the last statement can do without. -/
def lineEnd (n : Node) (ns : List Node) : List Char :=
  if !ns.isEmpty || n.kind == .noOp then [';', '\n'] else ['\n']

theorem toList_lines_cons (depth : Nat) (n : Node) (ns : List Node) :
    (statementLines depth (n :: ns)).toList =
      (indent depth).toList ++ ((statementText depth n).toList ++
        (lineEnd n ns ++ (statementLines depth ns).toList)) := by
  rw [statementLines, lineEnd]
  split <;> simp

theorem toList_indent (depth : Nat) : (indent depth).toList = List.replicate (4 * depth) ' ' := by
  simp [indent]

/-! ## Trees of one outline have one text -/

theorem expressionTexts_eq_map (ns : List Node) : expressionTexts ns = ns.map expressionText := by
  induction ns with
  | nil => rfl
  | cons n ns ih => rw [expressionTexts, ih, List.map_cons]

/-- What an operand or operator adds to the text is in the outline. -/
theorem expressionOver_congr {n m : Node} (hk : n.kind = m.kind) (hl : n.asLeaf? = m.asLeaf?)
    (texts : List String) : n.expressionOver texts = m.expressionOver texts := by
  unfold expressionOver
  unfold asLeaf? at hl
  rw [hk] at hl ⊢
  split <;> simp_all

mutual

theorem expressionText_congr : ∀ n m : Node, n.outline = m.outline →
    n.expressionText = m.expressionText
  | mk kind a ns, mk kind' a' ms, h => by
    simp only [outline, Outline.mk.injEq] at h
    obtain ⟨rfl, hl, hc⟩ := h
    rw [expressionText, expressionText, expressionTexts_congr ns ms hc]
    exact expressionOver_congr (n := mk kind a ns) (m := mk kind a' ms) rfl hl _

theorem expressionTexts_congr : ∀ ns ms : List Node, outlines ns = outlines ms →
    expressionTexts ns = expressionTexts ms
  | [], [], _ => rfl
  | [], _ :: _, h => by cases h
  | _ :: _, [], h => by cases h
  | n :: ns, m :: ms, h => by
    simp only [outlines, List.cons.injEq] at h
    rw [expressionTexts, expressionTexts, expressionText_congr n m h.1,
      expressionTexts_congr ns ms h.2]

end

theorem assignmentText_congr {ns ms : List Node} (h : outlines ns = outlines ms) :
    assignmentText ns = assignmentText ms := by
  have htexts := expressionTexts_congr ns ms h
  rw [expressionTexts_eq_map, expressionTexts_eq_map] at htexts
  simp only [assignmentText, ← List.getElem?_map, htexts]

theorem kind_of_outline {n m : Node} (h : n.outline = m.outline) : n.kind = m.kind := by
  rw [outline_eq, outline_eq, Outline.mk.injEq] at h
  exact h.1

mutual

theorem statementText_congr : ∀ (depth : Nat) (n m : Node), n.outline = m.outline →
    statementText depth n = statementText depth m
  | depth, mk kind a ns, mk kind' a' ms, h => by
    have htext := expressionText_congr (mk kind a ns) (mk kind' a' ms) h
    simp only [outline, Outline.mk.injEq] at h
    obtain ⟨rfl, -, hc⟩ := h
    cases kind with
    | compound => simp only [statementText, statementLines_congr (depth + 1) ns ms hc]
    | assign => simp only [statementText, assignmentText_congr hc]
    | noOp => simp only [statementText]
    | _ => simpa only [statementText] using htext

theorem statementLines_congr : ∀ (depth : Nat) (ns ms : List Node), outlines ns = outlines ms →
    statementLines depth ns = statementLines depth ms
  | _, [], [], _ => rfl
  | _, [], _ :: _, h => by cases h
  | _, _ :: _, [], h => by cases h
  | depth, n :: ns, m :: ms, h => by
    simp only [outlines, List.cons.injEq] at h
    have hempty : ns.isEmpty = ms.isEmpty := by
      cases ns <;> cases ms <;> simp_all [outlines]
    rw [statementLines, statementLines, statementText_congr depth n m h.1, kind_of_outline h.1,
      hempty, statementLines_congr depth ns ms h.2]

end

/-- **The text of a tree says its outline** and nothing more. -/
theorem source_congr {n m : Node} (h : n.outline = m.outline) : n.source = m.source :=
  statementText_congr 0 n m h

end PascalBlock.Node
