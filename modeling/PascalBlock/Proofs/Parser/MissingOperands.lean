import Mathlib
import PascalBlock.Proofs.Node.Preorder
import PascalBlock.Proofs.Parser.Statement

/-!
# Missing operands

An operand that cannot be read is flagged, and the node it was meant for has a child less. Between
the two it travels upwards as an absent node, through parentheses, signs and terms of one factor.
`Owing k ns` is the invariant: `ns` is at most one tree, and `k` operands are missing in it, itself
included when it is absent.

Main result: in every parse the gaps in the tree are as many as the operands that were flagged.
-/

namespace PascalBlock

/-- How many children a node of this kind is made for; a block takes any number. -/
def NodeKind.arity? : NodeKind → Option Nat
  | .compound => none
  | .noOp | .variable | .integerConstant | .realConstant | .stringConstant => some 0
  | .negate | .not => some 1
  | .assign | .eq | .ne | .lt | .le | .gt | .ge | .add | .subtract | .or | .multiply
  | .integerDivide | .floatDivide | .mod | .and => some 2

/-- Whether a node of this kind is a statement. -/
def NodeKind.isStatement : NodeKind → Bool
  | .compound | .assign | .noOp => true
  | _ => false

namespace Node

/-- A node has no more children than it is made for, a block has statements, and an assignment has
its variable. -/
structure WithinArity (n : Node) : Prop where
  length_le : ∀ arity ∈ n.kind.arity?, n.children.length ≤ arity
  statements : n.kind = .compound → ∀ c ∈ n.children, c.kind.isStatement
  target : n.kind = .assign → ∃ v rest, n.children = v :: rest ∧ v.kind = .variable

/-- How many children a node lacks. -/
def gap (n : Node) : Nat := (n.kind.arity?.map (· - n.children.length)).getD 0

/-- How many children are lacking in all the nodes of `ns` and below. -/
def gaps (ns : List Node) : Nat := ((preorderAll ns).map gap).sum

@[simp] theorem gap_mk (kind : NodeKind) (attributes : Attributes) (ns : List Node) :
    (mk kind attributes ns).gap = (kind.arity?.map (· - ns.length)).getD 0 := rfl

@[simp] theorem gaps_nil : gaps [] = 0 := rfl

@[simp] theorem gaps_append (ns ms : List Node) : gaps (ns ++ ms) = gaps ns + gaps ms := by
  simp [gaps]

@[simp] theorem gaps_singleton (kind : NodeKind) (attributes : Attributes) (ns : List Node) :
    gaps [.mk kind attributes ns] = gap (.mk kind attributes ns) + gaps ns := by
  simp [gaps]

end Node

/-- An operand was expected here and is missing. -/
def Diagnostic.isMissingOperand (d : Diagnostic) : Bool :=
  d.component == .expression &&
    match d.error.cause with
    | .unexpectedToken _ | .nestingTooDeep => true
    | _ => false

/-- How many operands were flagged as missing. -/
def missingOperands (ds : List Diagnostic) : Nat := ds.countP Diagnostic.isMissingOperand

@[simp] theorem missingOperands_nil : missingOperands [] = 0 := rfl

@[simp] theorem missingOperands_append (ds es : List Diagnostic) :
    missingOperands (ds ++ es) = missingOperands ds + missingOperands es := by
  simp [missingOperands]

namespace Parser

variable {p q : Parser} {ts : List Token} {ds : List Diagnostic} {ns ls rs : List Node} {k l : Nat}

/-! ## The invariant -/

/-- At most one tree, in which `k` operands are missing, itself included. -/
structure Owing (k : Nat) (ns : List Node) : Prop where
  length_le : ns.length ≤ 1
  within : ∀ n ∈ Node.preorderAll ns, n.WithinArity
  missing : Node.gaps ns + (1 - ns.length) = k

theorem owing_absent : Owing 1 [] := ⟨by simp, by simp, rfl⟩

theorem owing_leaf {kind : NodeKind} {attributes : Attributes} (h : kind.arity? = some 0) :
    Owing 0 [.mk kind attributes []] := by
  refine ⟨by simp, ?_, by simp [h]⟩
  simp only [Node.preorderAll_cons, Node.preorder_mk, Node.preorderAll_nil, List.append_nil,
    List.mem_singleton, forall_eq]
  refine ⟨by simp, ?_, ?_⟩ <;> rintro rfl <;> cases h

/-- A unary operator lacks what its operand lacks. -/
theorem Owing.unary (h : Owing k ns) {op : NodeKind} (ho : op.arity? = some 1) :
    Owing k [.mk op .empty ns] := by
  obtain ⟨hlen, hwithin, hmissing⟩ := h
  refine ⟨by simp, ?_, ?_⟩
  · simp only [Node.preorderAll_cons, Node.preorder_mk, Node.preorderAll_nil, List.append_nil,
      List.mem_cons]
    rintro n (rfl | hn)
    · refine ⟨by simpa [ho] using hlen, ?_, ?_⟩ <;> (rintro rfl; cases ho)
    · exact hwithin n hn
  · simp only [Node.gaps_singleton, Node.gap_mk, ho, Option.map_some, Option.getD_some,
      List.length_singleton]
    omega

/-- The operators with an operand on either side. -/
def IsBinary (op : NodeKind) : Prop := op.arity? = some 2 ∧ op ≠ .assign

/-- A binary operator lacks what its two operands lack. -/
theorem Owing.binary (hl : Owing k ls) (hr : Owing l rs) {op : NodeKind} (ho : IsBinary op) :
    Owing (k + l) [.mk op .empty (ls ++ rs)] := by
  obtain ⟨hlen, hwithin, hmissing⟩ := hl
  obtain ⟨hlen', hwithin', hmissing'⟩ := hr
  refine ⟨by simp, ?_, ?_⟩
  · simp only [Node.preorderAll_cons, Node.preorder_mk, Node.preorderAll_nil, List.append_nil,
      List.mem_cons, Node.preorderAll_append, List.mem_append]
    rintro n (rfl | hn | hn)
    · refine ⟨?_, ?_, fun he => absurd he ho.2⟩
      · simp only [Node.kind_mk, Node.children_mk, ho.1, Option.mem_some_iff, List.length_append]
        omega
      · intro he
        have h2 := ho.1
        rw [show op = .compound from he] at h2
        cases h2
    · exact hwithin n hn
    · exact hwithin' n hn
  · simp only [Node.gaps_singleton, Node.gap_mk, Node.gaps_append, ho.1, Option.map_some,
      Option.getD_some, List.length_singleton, List.length_append]
    omega

theorem isBinary_operator {s : Strength} {kind : TokenKind} {op : NodeKind}
    (h : s.operator? kind = some op) : IsBinary op := by
  cases s <;> cases kind <;> cases h <;> exact ⟨rfl, by decide⟩

theorem isBinary_relational {kind : TokenKind} {op : NodeKind} (h : kind.relational? = some op) :
    IsBinary op := by
  cases kind <;> cases h <;> exact ⟨rfl, by decide⟩

/-! ## Expressions -/

/-- What is missing before a phrase is read: only what follows in a chain starts from a tree. -/
def Phrase.Owes : Phrase → Nat → Prop
  | .links _ left, k => Owing k left
  | _, k => k = 0

theorem missingOperands_unknownName (p : Parser) : missingOperands p.unknownName = 0 := by
  unfold unknownName
  split <;> rfl

theorem Expects.missingOperands {kind : TokenKind} {component : Component}
    (h : Expects kind .missingRightParen component p ts ds q) : missingOperands ds = 0 := by
  cases h <;> simp [PascalBlock.missingOperands, diagnostic, Diagnostic.isMissingOperand]

theorem ReadsOperand.owing {phrase : Phrase} (h : ReadsOperand phrase p ts ds ns q) :
    ∀ {k}, phrase.Owes k → Owing (k + PascalBlock.missingOperands ds) ns := by
  induction h with
  | identifier =>
    rintro _ rfl
    obtain ⟨e, -, hv⟩ := identifier_value _ true
    rw [missingOperands_unknownName, hv]
    exact owing_leaf rfl
  | @constant p kind hk =>
    rintro _ rfl
    rw [constant_value]
    exact owing_leaf (by cases hp : p.kind <;> simp [hp, constantKind?] at hk <;> subst hk <;> rfl)
  | tooDeep | unexpected => rintro _ rfl; exact owing_absent
  | negation _ _ _ ih => rintro _ rfl; exact (ih rfl).unary rfl
  | parentheses _ _ _ close ih =>
    rintro _ rfl
    rw [missingOperands_append, close.missingOperands]
    exact ih rfl
  | plus _ _ ih | unsigned _ _ _ ih | simple _ _ ih => rintro _ rfl; exact ih rfl
  | minus _ _ ih => rintro _ rfl; exact (ih rfl).unary rfl
  | @chain s _ _ _ _ _ _ _ _ _ _ _ ih ih' =>
    rintro _ rfl
    rw [missingOperands_append, ← Nat.add_assoc]
    exact ih' (ih (by cases s <;> rfl))
  | stop => exact fun hk => hk
  | @link s _ _ _ _ _ _ _ _ _ _ _ hk _ _ ih ih' =>
    intro k hl
    have hr : Owing (0 + missingOperands _) _ := ih (by cases s <;> rfl)
    rw [Nat.zero_add] at hr
    rw [missingOperands_append, ← Nat.add_assoc]
    exact ih' (hl.binary hr (isBinary_operator hk))
  | relation _ hk _ ih ih' =>
    rintro _ rfl
    rw [missingOperands_append, ← Nat.add_assoc]
    simpa using (ih rfl).binary (ih' rfl) (isBinary_relational hk)

/-! ## Statements -/

/-- In these trees every statement stands in its place, and `k` operands are missing. -/
structure Complete (k : Nat) (ns : List Node) : Prop where
  within : ∀ n ∈ Node.preorderAll ns, n.WithinArity
  statements : ∀ n ∈ ns, n.kind.isStatement
  missing : Node.gaps ns = k

theorem complete_nil : Complete 0 [] := ⟨by simp, by simp, rfl⟩

theorem complete_noOp (p : Parser) : Complete 0 [.mk .noOp p.startLine []] :=
  ⟨(owing_leaf rfl).within, by simp [NodeKind.isStatement], by simp [NodeKind.arity?]⟩

theorem Complete.append (hl : Complete k ls) (hr : Complete l rs) :
    Complete (k + l) (ls ++ rs) := by
  refine ⟨?_, ?_, by rw [Node.gaps_append, hl.missing, hr.missing]⟩
  · intro n hn
    rcases List.mem_append.1 (by simpa using hn) with h | h
    · exact hl.within n h
    · exact hr.within n h
  · intro n hn
    rcases List.mem_append.1 hn with h | h
    · exact hl.statements n h
    · exact hr.statements n h

/-- A block lacks what its statements lack. -/
theorem Complete.compound (h : Complete k ns) (a : Attributes) :
    Complete k [.mk .compound a ns] := by
  refine ⟨?_, by simp [NodeKind.isStatement], by simp [NodeKind.arity?, h.missing]⟩
  simp only [Node.preorderAll_cons, Node.preorder_mk, Node.preorderAll_nil, List.append_nil,
    List.mem_cons]
  rintro n (rfl | hn)
  · exact ⟨by simp [NodeKind.arity?], fun _ => h.statements, by simp⟩
  · exact h.within n hn

/-- An assignment has its variable, and lacks what its expression lacks. -/
theorem Owing.assign (h : Owing k ns) (a : Attributes) (p : Parser) :
    Complete k [.mk .assign a ((identifier false p).value :: ns)] := by
  obtain ⟨e, -, hv⟩ := identifier_value p false
  obtain ⟨hlen, hwithin, hmissing⟩ := h
  have hleaf : Owing 0 [(identifier false p).value] := by rw [hv]; exact owing_leaf rfl
  refine ⟨?_, by simp [NodeKind.isStatement], ?_⟩
  · simp only [Node.preorderAll_cons, Node.preorder_mk, Node.preorderAll_nil, List.append_nil,
      List.mem_cons, List.mem_append]
    rintro n (rfl | hn | hn)
    · refine ⟨?_, by simp, fun _ => ⟨_, _, rfl, by rw [hv]; rfl⟩⟩
      simp only [Node.kind_mk, Node.children_mk, NodeKind.arity?, Option.mem_some_iff,
        List.length_cons]
      omega
    · exact hleaf.within n (by simpa using hn)
    · exact hwithin n hn
  · have hz := hleaf.missing
    simp only [Node.gaps_singleton, Node.gap_mk, NodeKind.arity?, Option.map_some,
      Option.getD_some, List.length_cons]
    rw [← List.singleton_append, Node.gaps_append]
    simp at hz
    omega

theorem Expects.missingOperands_of_ne {kind : TokenKind} {cause : Cause} {component : Component}
    (h : Expects kind cause component p ts ds q) (hc : component ≠ .expression) :
    PascalBlock.missingOperands ds = 0 := by
  cases h <;> simp [PascalBlock.missingOperands, diagnostic, Diagnostic.isMissingOperand, hc]

theorem Separates.missingOperands (h : Separates p ts ds q) :
    PascalBlock.missingOperands ds = 0 := by
  cases h <;> simp [PascalBlock.missingOperands, diagnostic, Diagnostic.isMissingOperand]

theorem ReadsStatement.complete {clause : Clause} (h : ReadsStatement clause p ts ds ns q) :
    Complete (PascalBlock.missingOperands ds) ns := by
  induction h with
  | assignment _ sign value =>
    rw [missingOperands_append, sign.missingOperands_of_ne (by decide)]
    exact (value.owing rfl).assign _ _
  | tooDeep => exact complete_noOp _
  | compound _ _ _ close ih =>
    rw [missingOperands_append, close.missingOperands_of_ne (by decide)]
    exact ih.compound _
  | empty => exact complete_noOp _
  | finish => exact complete_nil
  | round _ _ separator _ ih ih' =>
    rw [missingOperands_append, missingOperands_append, separator.missingOperands]
    exact ih.append ih'

theorem ReadsProgram.complete (h : ReadsProgram p ts ds ns q) :
    Complete (PascalBlock.missingOperands ds) ns := by
  cases h with
  | nothing => exact complete_nil
  | block _ root period =>
    rw [missingOperands_append, period.missingOperands_of_ne (by decide)]
    exact root.complete
  | noBlock _ _ period =>
    rw [← List.singleton_append, missingOperands_append,
      period.missingOperands_of_ne (by decide)]
    exact complete_nil

end Parser

/-- **Every missing operand is flagged once, and leaves one gap.** Whatever the tokens are: no node
of a tree that is read has more children than it is made for, and the tree lacks as many as operands
were flagged as missing; an expression that is absent altogether is one of them. -/
theorem missing_operands_are_flagged (tokens : List Token) (file : String) :
    let program := parse tokens file
    let expression := parseExpression tokens file
    ((∀ n ∈ Node.preorderAll program.value.toList, n.WithinArity) ∧
      Node.gaps program.value.toList = missingOperands program.after.log.entries.toList) ∧
    (∀ n ∈ Node.preorderAll expression.value.toList, n.WithinArity) ∧
      Node.gaps expression.value.toList + (if expression.value = none then 1 else 0) =
        missingOperands expression.after.log.entries.toList := by
  intro program expression
  have hp := (readsProgram_parse tokens file).complete
  have he := (readsOperand_parseExpression tokens file).owing rfl
  refine ⟨⟨hp.within, hp.missing⟩, he.within, ?_⟩
  have hm := he.missing
  rw [Nat.zero_add] at hm
  rw [← hm]
  cases expression.value <;> simp

end PascalBlock
