import Mathlib.Combinatorics.Enumerative.DyckWord
import PascalBlock.Node.Shape
import PascalBlock.Proofs.Parser.MissingOperands
import PascalBlock.Proofs.Parser.TokensKept

/-!
# Brackets

Sequences of brackets that are properly nested are the Dyck words. A tree has one for every sort of
node that counts as a pair of brackets (`Node.brackets`), with as many pairs as there are such nodes
(`semilength_brackets`); two kinds of token, one that opens and one that closes, make a sequence of
brackets out of any list of tokens (`bracketSteps`). A list `Keeps` trees if it has their operands in
order, and if its `BEGIN` and `END` and its parentheses are the brackets of their blocks and
operators.
-/

namespace PascalBlock

open DyckStep

/-- Whether a node of this kind is an operator. -/
def NodeKind.isOperator (kind : NodeKind) : Bool := !kind.isStatement && !kind.isOperand

/-- Whether a node of this kind is a block. -/
def NodeKind.isBlock (kind : NodeKind) : Bool := kind == .compound

/-! ## Brackets of a tree -/

namespace Node

mutual

/-- A pair of brackets for every node of the kinds `pairs`, around those of the nodes below it. -/
def brackets (pairs : NodeKind → Bool) : Node → DyckWord
  | mk kind _ children =>
    if pairs kind then (bracketsAll pairs children).nest else bracketsAll pairs children

def bracketsAll (pairs : NodeKind → Bool) : List Node → DyckWord
  | [] => 0
  | n :: ns => brackets pairs n + bracketsAll pairs ns

end

variable {pairs : NodeKind → Bool} {kind : NodeKind} {a : Attributes} {ns ms : List Node}

@[simp] theorem bracketsAll_nil : bracketsAll pairs [] = 0 := by rw [bracketsAll]

@[simp] theorem bracketsAll_cons (n : Node) :
    bracketsAll pairs (n :: ns) = n.brackets pairs + bracketsAll pairs ns := by rw [bracketsAll]

@[simp] theorem bracketsAll_append :
    bracketsAll pairs (ns ++ ms) = bracketsAll pairs ns + bracketsAll pairs ms := by
  induction ns with
  | nil => simp
  | cons n ns ih => simp [ih, add_assoc]

theorem brackets_of_pair (h : pairs kind = true) :
    bracketsAll pairs [mk kind a ns] = (bracketsAll pairs ns).nest := by
  rw [bracketsAll_cons, brackets, if_pos h, bracketsAll_nil, add_zero]

theorem brackets_of_other (h : pairs kind = false) :
    bracketsAll pairs [mk kind a ns] = bracketsAll pairs ns := by simp [brackets, h]

mutual

/-- **There is one pair of brackets for every node of the kinds**. -/
theorem semilength_brackets : ∀ n : Node,
    (n.brackets pairs).semilength = n.preorder.countP fun m => pairs m.kind
  | mk kind a ns => by
    rw [preorder_mk, List.countP_cons, ← semilength_bracketsAll ns, brackets, kind_mk]
    split <;> simp

theorem semilength_bracketsAll : ∀ ns : List Node,
    (bracketsAll pairs ns).semilength = (preorderAll ns).countP fun m => pairs m.kind
  | [] => by simp
  | n :: ns => by
    rw [bracketsAll_cons, DyckWord.semilength_add, preorderAll_cons, List.countP_append,
      semilength_brackets n, semilength_bracketsAll ns]

end

end Node

/-! ## Brackets among tokens -/

/-- The kinds of token that are no operand and no bracket. -/
def TokenKind.isFiller : TokenKind → Bool
  | identifier | integer | real | string | beginWord | endWord | leftParen | rightParen => false
  | _ => true

/-- The bracket that a token is where one kind opens and another one closes. -/
def Token.bracket? (opening closing : TokenKind) (t : Token) : Option DyckStep :=
  if t.kind = opening then some U else if t.kind = closing then some D else none

/-- The brackets among tokens. -/
def bracketSteps (opening closing : TokenKind) (ts : List Token) : List DyckStep :=
  ts.filterMap (Token.bracket? opening closing)

section
variable {opening closing : TokenKind} {ts us : List Token} {b e : Token}

@[simp] theorem bracketSteps_append :
    bracketSteps opening closing (ts ++ us) =
      bracketSteps opening closing ts ++ bracketSteps opening closing us :=
  List.filterMap_append

/-- A pair around tokens. -/
theorem bracketSteps_pair (hne : closing ≠ opening) (hb : b.kind = opening) (he : e.kind = closing) :
    bracketSteps opening closing (b :: ts ++ [e]) =
      U :: (bracketSteps opening closing ts ++ [D]) := by
  simp [bracketSteps, Token.bracket?, hb, he, hne]

/-- No pair around tokens. -/
theorem bracketSteps_around (hb : b.bracket? opening closing = none)
    (he : e.bracket? opening closing = none) :
    bracketSteps opening closing (b :: ts ++ [e]) = bracketSteps opening closing ts := by
  simp [bracketSteps, hb, he]

theorem bracketSteps_singleton (hb : b.bracket? opening closing = none) :
    bracketSteps opening closing [b] = [] := by simp [bracketSteps, hb]

end

/-! ## What a text keeps of trees -/

/-- The tokens have the operands of the trees in order, a `BEGIN` and an `END` around every block,
and parentheses around every operator, and no others of these. -/
structure Keeps (ns : List Node) (ts : List Token) : Prop where
  leaves : ts.filterMap Token.asLeaf? = Node.leaves ns
  blocks : bracketSteps .beginWord .endWord ts = (Node.bracketsAll NodeKind.isBlock ns).toList
  operators : bracketSteps .leftParen .rightParen ts =
    (Node.bracketsAll NodeKind.isOperator ns).toList

namespace Keeps

variable {ns ms : List Node} {ts us : List Token} {n : Node} {t b e : Token} {kind : NodeKind}
  {a : Attributes}

theorem nil : Keeps [] [] := ⟨rfl, rfl, rfl⟩

theorem append (h : Keeps ns ts) (h' : Keeps ms us) : Keeps (ns ++ ms) (ts ++ us) where
  leaves := by rw [List.filterMap_append, h.leaves, h'.leaves, Node.leaves_append]
  blocks := by rw [bracketSteps_append, h.blocks, h'.blocks, Node.bracketsAll_append]; rfl
  operators := by rw [bracketSteps_append, h.operators, h'.operators, Node.bracketsAll_append]; rfl

theorem filler (h : t.kind.isFiller = true) : Keeps [] [t] := by
  have hleaf : t.asLeaf? = none := by
    unfold Token.asLeaf?
    cases hk : t.kind <;> simp_all [TokenKind.isFiller]
  have hword : t.bracket? .beginWord .endWord = none := by
    cases hk : t.kind <;> simp_all [TokenKind.isFiller, Token.bracket?]
  have hparen : t.bracket? .leftParen .rightParen = none := by
    cases hk : t.kind <;> simp_all [TokenKind.isFiller, Token.bracket?]
  exact ⟨by simp [hleaf], bracketSteps_singleton hword, bracketSteps_singleton hparen⟩

/-- An operand has its token. -/
theorem operand {leaf : Leaf} (ht : t.asLeaf? = some leaf)
    (hn : (Node.mk kind a []).asLeaf? = some leaf) : Keeps [.mk kind a []] [t] := by
  have hk : kind.isOperand = true := by
    unfold Node.asLeaf? at hn
    cases kind <;> simp_all [NodeKind.isOperand]
  have hblock : kind.isBlock = false := by
    cases kind <;> simp_all [NodeKind.isOperand, NodeKind.isBlock]
  have hoperator : kind.isOperator = false := by simp [NodeKind.isOperator, hk]
  have hword : t.bracket? .beginWord .endWord = none := by
    unfold Token.asLeaf? at ht
    split at ht <;> simp_all [Token.bracket?]
  have hparen : t.bracket? .leftParen .rightParen = none := by
    unfold Token.asLeaf? at ht
    split at ht <;> simp_all [Token.bracket?]
  refine ⟨?_, ?_, ?_⟩
  · simp [Node.leaves_singleton, hn, ht]
  · rw [Node.brackets_of_other hblock, bracketSteps_singleton hword]
    rfl
  · rw [Node.brackets_of_other hoperator, bracketSteps_singleton hparen]
    rfl

/-- A block has its `BEGIN` and `END` around its statements. -/
theorem block (h : Keeps ns ts) (hb : b.kind = .beginWord) (he : e.kind = .endWord) :
    Keeps [.mk .compound a ns] (b :: ts ++ [e]) := by
  refine ⟨?_, ?_, ?_⟩
  · rw [Node.leaves_singleton]
    simp [Token.asLeaf?, hb, he, Node.asLeaf?, h.leaves]
  · rw [Node.brackets_of_pair (by rfl), bracketSteps_pair (by decide) hb he, h.blocks]
    rfl
  · rw [Node.brackets_of_other (by rfl), bracketSteps_around, h.operators] <;>
      simp [Token.bracket?, hb, he]

/-- An operator has its parentheses around its operands. -/
theorem operator (h : Keeps ns ts) (hk : kind.isOperator = true) (hb : b.kind = .leftParen)
    (he : e.kind = .rightParen) : Keeps [.mk kind a ns] (b :: ts ++ [e]) := by
  have hleaf : (Node.mk kind a ns).asLeaf? = none := by
    cases kind <;> first | rfl | cases hk
  have hblock : kind.isBlock = false := by cases kind <;> first | rfl | cases hk
  refine ⟨?_, ?_, ?_⟩
  · rw [Node.leaves_singleton, hleaf]
    simp [Token.asLeaf?, hb, he, h.leaves]
  · rw [Node.brackets_of_other hblock, bracketSteps_around, h.blocks] <;>
      simp [Token.bracket?, hb, he]
  · rw [Node.brackets_of_pair hk, bracketSteps_pair (by decide) hb he, h.operators]
    rfl

/-- Any other statement adds nothing to what stands in it. -/
theorem statement (h : Keeps ns ts) (hk : kind = .assign ∨ kind = .noOp) :
    Keeps [.mk kind a ns] ts := by
  refine ⟨?_, ?_, ?_⟩
  · rw [Node.leaves_singleton, h.leaves]
    rcases hk with rfl | rfl <;> rfl
  · rw [Node.brackets_of_other, h.blocks]
    rcases hk with rfl | rfl <;> rfl
  · rw [Node.brackets_of_other, h.operators]
    rcases hk with rfl | rfl <;> rfl

end Keeps

end PascalBlock
