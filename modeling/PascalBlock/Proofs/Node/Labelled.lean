import PascalBlock.Proofs.Node.Brackets
import PascalBlock.Proofs.Node.WellFormed
import PascalBlock.Proofs.Number.Text

/-!
# Labelled trees

A tree is labelled when every node has the attributes that go with its kind, and no others: a
statement its line, a variable its name, a constant a value of its kind, and an operator none. Only
statements and operators have children, as many as there are.
-/

namespace PascalBlock

theorem NodeKind.isOperand_of_isStatement {kind : NodeKind} (h : kind.isStatement = true) :
    kind.isOperand = false := by
  cases kind <;> first | rfl | cases h

theorem NodeKind.isOperand_of_isOperator {kind : NodeKind} (h : kind.isOperator = true) :
    kind.isOperand = false := by
  cases kind <;> first | rfl | cases h

/-- The kinds of constant and the values that go with them. The sign of a number is clear. -/
inductive Literal.GoesWith : NodeKind → Literal → Prop
  | integer (n : Nat) : GoesWith .integerConstant (.integer n)
  | real (rank : Fin Binary64.rankCount) : GoesWith .realConstant (.real (.finite false rank))
  | string (text : String) : GoesWith .stringConstant (.string text)

/-- A value is known by its text. -/
theorem Literal.GoesWith.eq_of_text {kind : NodeKind} {value value' : Literal}
    (h : value.GoesWith kind) (h' : value'.GoesWith kind) (htext : value.text = value'.text) :
    value = value' := by
  cases h with
  | integer n =>
    cases h' with
    | integer m => rw [Literal.text_integer_inj htext]
  | real rank =>
    cases h' with
    | real rank' => rw [Binary64.text_inj htext]
  | string text =>
    cases h' with
    | string text' => exact congrArg Literal.string htext

namespace Node

inductive Labelled : Node → Prop
  | statement {kind : NodeKind} {ns : List Node} (line : UInt32) (hk : kind.isStatement = true)
      (h : ∀ n ∈ ns, Labelled n) : Labelled (mk kind ⟨some (.line line), none, none⟩ ns)
  | operator {kind : NodeKind} {ns : List Node} (hk : kind.isOperator = true)
      (h : ∀ n ∈ ns, Labelled n) : Labelled (mk kind .empty ns)
  | name {ref : EntryRef} (h : IsName ref.name) :
      Labelled (mk .variable ⟨none, some (.entry ref), none⟩ [])
  | constant {kind : NodeKind} {value : Literal} (h : value.GoesWith kind) :
      Labelled (mk kind ⟨none, none, some (.literal value)⟩ [])

variable {kind : NodeKind} {a b : Attributes} {n : Node} {ns ms : List Node} {P : String → Prop}

theorem Labelled.children (h : Labelled (mk kind a ns)) : ∀ n ∈ ns, Labelled n := by
  cases h with
  | statement _ _ h | operator _ h => exact h
  | name | constant => exact List.forall_mem_nil _

mutual

theorem Labelled.preorder : ∀ n : Node, Labelled n → ∀ m ∈ n.preorder, Labelled m
  | mk kind a ns, h => by
    rw [preorder_mk, List.forall_mem_cons]
    exact ⟨h, Labelled.preorderAll ns h.children⟩

theorem Labelled.preorderAll : ∀ ns : List Node, (∀ n ∈ ns, Labelled n) →
    ∀ m ∈ Node.preorderAll ns, Labelled m
  | [], _ => List.forall_mem_nil _
  | n :: ns, h => by
    rw [List.forall_mem_cons] at h
    rw [preorderAll_cons, List.forall_mem_append]
    exact ⟨Labelled.preorder n h.1, Labelled.preorderAll ns h.2⟩

end

/-- An operand has nothing below it. -/
theorem Labelled.eq_nil (h : Labelled (mk kind a ns)) (hk : kind.isOperand = true) : ns = [] := by
  cases h with
  | statement _ hs =>
    rw [NodeKind.isOperand_of_isStatement hs] at hk
    cases hk
  | operator ho =>
    rw [NodeKind.isOperand_of_isOperator ho] at hk
    cases hk
  | name | constant => rfl

/-- What the attributes of two labelled nodes of one kind can be: both have a line, both have none,
both have a name, or both have a value. -/
inductive LabelledAlike : NodeKind → Attributes → Attributes → Prop
  | lines {kind : NodeKind} (hk : kind.isOperand = false) (line line' : UInt32) :
      LabelledAlike kind ⟨some (.line line), none, none⟩ ⟨some (.line line'), none, none⟩
  | nothing {kind : NodeKind} (hk : kind.isOperand = false) : LabelledAlike kind .empty .empty
  | names {ref ref' : EntryRef} (h : IsName ref.name) (h' : IsName ref'.name) :
      LabelledAlike .variable ⟨none, some (.entry ref), none⟩ ⟨none, some (.entry ref'), none⟩
  | values {kind : NodeKind} {value value' : Literal} (h : value.GoesWith kind)
      (h' : value'.GoesWith kind) : LabelledAlike kind ⟨none, none, some (.literal value)⟩
        ⟨none, none, some (.literal value')⟩

/-- The kind of a node tells which attributes it has. -/
theorem Labelled.alike (hn : Labelled (mk kind a ns)) (hm : Labelled (mk kind b ms)) :
    LabelledAlike kind a b := by
  cases hn with
  | statement line hk =>
    cases hm with
    | statement line' => exact .lines (NodeKind.isOperand_of_isStatement hk) line line'
    | operator hk' => simp [NodeKind.isOperator, hk] at hk'
    | name => cases hk
    | constant h' => cases h' <;> cases hk
  | operator hk =>
    cases hm with
    | statement line' hk' => simp [NodeKind.isOperator, hk'] at hk
    | operator => exact .nothing (NodeKind.isOperand_of_isOperator hk)
    | name => cases hk
    | constant h' => cases h' <;> cases hk
  | name h =>
    cases hm with
    | statement _ hk' | operator hk' => cases hk'
    | name h' => exact .names h h'
    | constant h' => cases h'
  | constant h =>
    cases hm with
    | statement _ hk' | operator hk' => cases h <;> cases hk'
    | name => cases h
    | constant h' => exact .values h h'

/-- A node that is no operand shows nothing of its own but its kind. -/
theorem asLeaf?_eq_none_of_kind (hk : kind.isOperand = false) :
    (mk kind a ns).asLeaf? = none := by
  cases kind <;> first | rfl | cases hk

/-! ## The strings in trees -/

/-- The values of all string constants in the trees satisfy `P`. -/
def StringsAll (P : String → Prop) (ns : List Node) : Prop :=
  ∀ n ∈ preorderAll ns, ∀ text, n.literal? = some (.string text) → P text

theorem stringsAll_append : StringsAll P (ns ++ ms) ↔ StringsAll P ns ∧ StringsAll P ms := by
  rw [StringsAll, preorderAll_append]
  exact List.forall_mem_append

theorem stringsAll_cons : StringsAll P (n :: ns) ↔ StringsAll P [n] ∧ StringsAll P ns :=
  @stringsAll_append [n] ns P

theorem StringsAll.children (h : StringsAll P [mk kind a ns]) : StringsAll P ns :=
  fun n hn => h n (by simp [hn])

theorem StringsAll.value {text : String}
    (h : StringsAll P [mk kind ⟨none, none, some (.literal (.string text))⟩ ns]) : P text :=
  h (mk kind ⟨none, none, some (.literal (.string text))⟩ ns) (by simp) text rfl

end Node

end PascalBlock
