import PascalBlock.Node.Basic

/-!
# All nodes of a tree

The nodes of a tree as a list, each before those below it and siblings from left to right. What is
said of every node, the sums over all nodes and the sequence of the leaves are said of this list.
-/

namespace PascalBlock.Node

section
variable (kind : NodeKind) (attributes : Attributes) (children : List Node)

@[simp] theorem kind_mk : (mk kind attributes children).kind = kind := rfl
@[simp] theorem attributes_mk : (mk kind attributes children).attributes = attributes := rfl
@[simp] theorem children_mk : (mk kind attributes children).children = children := rfl

end

mutual

/-- All nodes of a tree, a node before its children. -/
def preorder : Node → List Node
  | mk kind attributes children => mk kind attributes children :: preorderAll children

def preorderAll : List Node → List Node
  | [] => []
  | n :: ns => preorder n ++ preorderAll ns

end

@[simp] theorem preorder_mk (kind : NodeKind) (attributes : Attributes) (children : List Node) :
    (mk kind attributes children).preorder =
      mk kind attributes children :: preorderAll children := by
  rw [preorder]

@[simp] theorem preorderAll_nil : preorderAll [] = [] := by rw [preorderAll]

@[simp] theorem preorderAll_cons (n : Node) (ns : List Node) :
    preorderAll (n :: ns) = n.preorder ++ preorderAll ns := by rw [preorderAll]

@[simp] theorem preorderAll_append (ns ms : List Node) :
    preorderAll (ns ++ ms) = preorderAll ns ++ preorderAll ms := by
  induction ns with
  | nil => simp
  | cons n ns ih => simp [ih]

theorem preorder_eq (n : Node) : n.preorder = n :: preorderAll n.children := by
  cases n; simp

end PascalBlock.Node
