import PascalBlock.Proofs.Node.Preorder

/-!
# Outlines of trees

What a tree says, without where it was said: kinds, names and values. Lines are left out, and of an
identifier only the name is kept.
-/

namespace PascalBlock

/-- An operand: the name of a variable, or the value of a constant. -/
inductive Leaf where
  | variable (name : Option String)
  | constant (kind : NodeKind) (literal : Option Literal)
deriving DecidableEq, Repr

/-- The operand that a node stands for. -/
def Node.asLeaf? (n : Node) : Option Leaf :=
  match n.kind with
  | .variable => some (.variable (n.entry?.map (·.name)))
  | .integerConstant => some (.constant .integerConstant n.literal?)
  | .realConstant => some (.constant .realConstant n.literal?)
  | .stringConstant => some (.constant .stringConstant n.literal?)
  | _ => none

/-- The operand that a token stands for. -/
def Token.asLeaf? (t : Token) : Option Leaf :=
  match t.kind with
  | .identifier => some (.variable (some t.name))
  | .integer => some (.constant .integerConstant t.literal)
  | .real => some (.constant .realConstant t.literal)
  | .string => some (.constant .stringConstant t.literal)
  | _ => none

/-- The kind of node for an operand. -/
def Leaf.kind : Leaf → NodeKind
  | .variable _ => .variable
  | .constant kind _ => kind

/-- A tree by its kinds, and by the names and values of its operands. -/
inductive Outline where
  | mk (kind : NodeKind) (leaf : Option Leaf) (children : List Outline)
deriving Repr

namespace Outline

def operand (leaf : Leaf) : Outline := mk leaf.kind (some leaf) []

/-- A statement, or an operator over its operands. -/
def node (kind : NodeKind) (children : List Outline) : Outline := mk kind none children

end Outline

namespace Node

mutual

/-- The outline of a tree. -/
def outline : Node → Outline
  | mk kind attributes children =>
    .mk kind (asLeaf? (mk kind attributes children)) (outlines children)

def outlines : List Node → List Outline
  | [] => []
  | n :: ns => outline n :: outlines ns

end

theorem outlines_eq_map (ns : List Node) : outlines ns = ns.map outline := by
  induction ns with
  | nil => rfl
  | cons n ns ih => rw [outlines, ih, List.map_cons]

theorem outline_eq (n : Node) : n.outline = .mk n.kind n.asLeaf? (n.children.map outline) := by
  cases n
  rw [outline, outlines_eq_map]
  rfl

/-- The outline shows how many children there are. -/
theorem length_children_of_outline {n m : Node} (h : n.outline = m.outline) :
    n.children.length = m.children.length := by
  rw [outline_eq, outline_eq, Outline.mk.injEq] at h
  simpa using congrArg List.length h.2.2

/-- A node that is no operand. -/
theorem outline_mk {kind : NodeKind} {a : Attributes} {ns : List Node}
    (h : (mk kind a ns).asLeaf? = none) : (mk kind a ns).outline = .node kind (ns.map outline) := by
  rw [outline_eq, h]
  rfl

end Node

end PascalBlock
