import PascalBlock.Node.Basic

/-!
# Trees on one line

The shape of a tree, as in `ADD(2, MULTIPLY(3, 4))`: constants show their value and variables their
name. In the shape with kinds every operand shows its kind as well.
-/

namespace PascalBlock

/-- Whether a node of this kind stands for an operand. -/
def NodeKind.isOperand : NodeKind → Bool
  | .variable | .integerConstant | .realConstant | .stringConstant => true
  | _ => false

namespace Node

/-- The shape of an operand. Its children do not show, and an operand that lacks its attribute shows
its kind. -/
def operandShape (n : Node) : String :=
  match n.kind with
  | .variable => (n.entry?.map (·.name)).getD n.kind.name
  | .stringConstant => (n.literal?.map fun v => "'" ++ v.text ++ "'").getD n.kind.name
  | _ => (n.literal?.map (·.text)).getD n.kind.name

/-- A kind around the shapes of the children. -/
def shapeOver (kind : NodeKind) (parts : List String) : String :=
  if parts.isEmpty then kind.name else kind.name ++ "(" ++ ", ".intercalate parts ++ ")"

mutual

/-- The shape of a tree. -/
def shape : Node → String
  | mk kind attributes children =>
    if kind.isOperand then operandShape (mk kind attributes children)
    else shapeOver kind (shapes children)

def shapes : List Node → List String
  | [] => []
  | n :: ns => shape n :: shapes ns

end

mutual

/-- The shape of a tree in which operands show their kind. -/
def kindShape : Node → String
  | mk kind attributes children =>
    if kind.isOperand then kind.name ++ " " ++ operandShape (mk kind attributes children)
    else shapeOver kind (kindShapes children)

def kindShapes : List Node → List String
  | [] => []
  | n :: ns => kindShape n :: kindShapes ns

end

end Node

end PascalBlock
