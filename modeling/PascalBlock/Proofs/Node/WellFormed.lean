import Mathlib
import PascalBlock.Proofs.Grammar
import PascalBlock.Parser.State
import PascalBlock.Token.Scan

/-!
# Well-formed trees

The trees that stand for a program: what kinds of node stand below each other, what the operands
hold, and how many levels a tree would open when it is read.
-/

namespace PascalBlock

/-- A name in small letters, and no reserved word. -/
def IsName (name : String) : Prop :=
  (∃ c cs, name.toList = c :: cs ∧ c.isLower = true ∧
    ∀ d ∈ cs, d.isLower = true ∨ d.isDigit = true ∨ d = '_') ∧
  TokenKind.ofReserved? name = none

/-- How many levels a node of this kind opens in the source text: those of its parentheses, of
`begin` and of `not`. -/
def NodeKind.levels : NodeKind → Nat
  | .variable | .integerConstant | .realConstant | .stringConstant | .assign | .noOp => 0
  | .not => 2
  | _ => 1

namespace Node

mutual

/-- The most levels that are open on a path from the root. -/
def opened : Node → Nat
  | mk kind _ children => kind.levels + openedAll children

def openedAll : List Node → Nat
  | [] => 0
  | n :: ns => max (opened n) (openedAll ns)

end

/-- An operand, or an operator with all its operands. The sign of a real is clear. -/
inductive IsExpression : Node → Prop
  | name {a : Attributes} {ref : EntryRef} (ha : a.id = some (.entry ref))
      (hn : IsName ref.name) : IsExpression (mk .variable a [])
  | integer {a : Attributes} {value : Int} (ha : a.value = some (.literal (.integer value)))
      (h0 : 0 ≤ value) (hm : value ≤ 2 ^ 63 - 1) : IsExpression (mk .integerConstant a [])
  | real {a : Attributes} {rank : Fin Binary64.rankCount}
      (ha : a.value = some (.literal (.real (.finite false rank)))) :
      IsExpression (mk .realConstant a [])
  | string {a : Attributes} {text : String} (ha : a.value = some (.literal (.string text))) :
      IsExpression (mk .stringConstant a [])
  | negate {a : Attributes} {n : Node} (h : IsExpression n) : IsExpression (mk .negate a [n])
  | not {a : Attributes} {n : Node} (h : IsExpression n) : IsExpression (mk .not a [n])
  | binary {prec : Grammar.Precedence} {token : TokenKind} {kind : NodeKind} {a : Attributes}
      {left right : Node} (hk : Grammar.Operator prec token kind) (hl : IsExpression left)
      (hr : IsExpression right) : IsExpression (mk kind a [left, right])

inductive IsStatement : Node → Prop
  | noOp {a : Attributes} : IsStatement (mk .noOp a [])
  | assign {a : Attributes} {target value : Node} (ht : IsExpression target)
      (hk : target.kind = .variable) (hv : IsExpression value) :
      IsStatement (mk .assign a [target, value])
  | compound {a : Attributes} {ns : List Node} (h : ∀ n ∈ ns, IsStatement n) :
      IsStatement (mk .compound a ns)

/-- A block that does not open more levels than a parse allows. -/
structure WellFormed (root : Node) : Prop where
  statement : IsStatement root
  compound : root.kind = .compound
  opened : root.opened ≤ Parser.maxNesting

end Node

end PascalBlock
