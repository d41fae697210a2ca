import PascalBlock.Node.Dump

/-!
# From a tree to source text

The tree written as a Pascal block. Every operator stands in parentheses, which reading drops again,
so precedence never has to be restored.
-/

namespace PascalBlock.Node

/-- A text between single quotes, with every quote inside written twice. -/
def quoteString (s : String) : String :=
  "'" ++ String.ofList (s.toList.flatMap fun c => if c = '\'' then ['\'', '\''] else [c]) ++ "'"

/-- An operand or an operator over the texts of its operands. -/
def expressionOver (n : Node) (operands : List String) : String :=
  match n.kind with
  | .variable => (n.entry?.map (·.name)).getD ""
  | .integerConstant | .realConstant => (n.literal?.map (·.text)).getD ""
  | .stringConstant => quoteString ((n.literal?.map (·.text)).getD "")
  | .negate => "(-" ++ String.join operands ++ ")"
  | .not => "(NOT " ++ String.join operands ++ ")"
  | kind =>
    match kind.binarySymbol? with
    | some symbol => "(" ++ (" " ++ symbol ++ " ").intercalate operands ++ ")"
    | none => " ".intercalate operands

mutual

/-- The text of an expression. -/
def expressionText : Node → String
  | mk kind attributes children =>
    expressionOver (mk kind attributes children) (expressionTexts children)

def expressionTexts : List Node → List String
  | [] => []
  | n :: ns => expressionText n :: expressionTexts ns

end

/-- An assignment; what it lacks is left out. -/
def assignmentText (children : List Node) : String :=
  ((children[0]?).map expressionText).getD "" ++ " := " ++
    ((children[1]?).map expressionText).getD ""

mutual

/-- The text of a statement whose first line is indented already. -/
def statementText (depth : Nat) : Node → String
  | mk .compound _ children =>
    "BEGIN\n" ++ statementLines (depth + 1) children ++ indent depth ++ "END"
  | mk .assign _ children => assignmentText children
  | mk .noOp _ _ => ""
  | mk kind attributes children => expressionText (mk kind attributes children)

/-- The statements of a block, one after the other on lines of their own. A semicolon separates
them; an empty statement in the last place keeps its own, or reading would drop it. -/
def statementLines (depth : Nat) : List Node → String
  | [] => ""
  | n :: ns =>
    indent depth ++ statementText depth n ++
      (if !ns.isEmpty || n.kind == .noOp then ";" else "") ++ "\n" ++ statementLines depth ns

end

/-- The text of a tree. -/
def source (n : Node) : String := statementText 0 n

end PascalBlock.Node
