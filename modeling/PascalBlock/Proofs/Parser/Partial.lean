import PascalBlock.Proofs.Parser.Accepted

/-!
# Partial trees

The trees of any parse, whatever was flagged: an operator has those of its operands that could be
read, and an assignment that lacks its value has its variable alone. With tokens that carry what goes
with their kinds, every reading builds such trees (`ReadsOperand.builtPartly`,
`ReadsStatement.builtPartly`), and the root is a block.
-/

namespace PascalBlock

namespace Node

/-- An operand, or an operator over those of its operands that are there. -/
inductive IsPartialExpression : Node → Prop
  | operand {kind : NodeKind} {a : Attributes} (h : IsExpression (mk kind a [])) :
      IsPartialExpression (mk kind a [])
  | unary {kind : NodeKind} {a : Attributes} {ns : List Node} (hk : kind = .negate ∨ kind = .not)
      (hlen : ns.length ≤ 1) (h : ∀ n ∈ ns, IsPartialExpression n) :
      IsPartialExpression (mk kind a ns)
  | binary {prec : Grammar.Precedence} {token : TokenKind} {kind : NodeKind} {a : Attributes}
      {ns : List Node} (hk : Grammar.Operator prec token kind) (hlen : ns.length ≤ 2)
      (h : ∀ n ∈ ns, IsPartialExpression n) : IsPartialExpression (mk kind a ns)

inductive IsPartialStatement : Node → Prop
  | noOp {a : Attributes} : IsPartialStatement (mk .noOp a [])
  | assign {a : Attributes} {target : Node} {ns : List Node} (ht : IsExpression target)
      (hk : target.kind = .variable) (hlen : ns.length ≤ 1) (hv : ∀ n ∈ ns, IsPartialExpression n) :
      IsPartialStatement (mk .assign a (target :: ns))
  | compound {a : Attributes} {ns : List Node} (h : ∀ n ∈ ns, IsPartialStatement n) :
      IsPartialStatement (mk .compound a ns)

end Node

open Node

namespace Parser

variable {p q : Parser} {ts : List Token} {ds : List Diagnostic} {ns ms : List Node}

/-! ## Expressions -/

/-- At most one expression is built. -/
structure BuildsPartly (ns : List Node) : Prop where
  length_le : ns.length ≤ 1
  expression : ∀ n ∈ ns, IsPartialExpression n

theorem buildsPartly_nil : BuildsPartly [] := ⟨Nat.zero_le _, List.forall_mem_nil _⟩

theorem buildsPartly_singleton {n : Node} (h : IsPartialExpression n) : BuildsPartly [n] :=
  ⟨Nat.le_refl _, List.forall_mem_singleton.2 h⟩

theorem BuildsPartly.unary {kind : NodeKind} (h : BuildsPartly ns)
    (hk : kind = .negate ∨ kind = .not) : BuildsPartly [.mk kind .empty ns] :=
  buildsPartly_singleton (.unary hk h.length_le h.expression)

theorem BuildsPartly.binary {prec : Grammar.Precedence} {token : TokenKind} {kind : NodeKind}
    (hl : BuildsPartly ns) (hr : BuildsPartly ms) (hk : Grammar.Operator prec token kind) :
    BuildsPartly [.mk kind .empty (ns ++ ms)] := by
  have hlen : (ns ++ ms).length ≤ 2 := by
    have := hl.length_le
    have := hr.length_le
    simp only [List.length_append]
    omega
  exact buildsPartly_singleton
    (.binary hk hlen (List.forall_mem_append.2 ⟨hl.expression, hr.expression⟩))

/-- What a reading of a phrase builds. -/
def Phrase.BuiltPartly (ns : List Node) : Phrase → Prop
  | links _ left => BuildsPartly left → BuildsPartly ns
  | _ => BuildsPartly ns

/-- **A reading builds a partial expression**, or none. -/
theorem ReadsOperand.builtPartly {phrase : Phrase} (h : ReadsOperand phrase p ts ds ns q)
    (ht : ∀ t ∈ ts, t.Lexical) : phrase.BuiltPartly ns := by
  induction h with
  | @identifier p hk =>
    obtain ⟨e, -, hv⟩ := identifier_value p true
    have hname := isExpression_identifier hk (ht _ (List.mem_singleton_self _)) true
    rw [hv] at hname ⊢
    exact buildsPartly_singleton (.operand hname)
  | @constant p kind hk =>
    have hvalue := isExpression_constant hk (ht _ (List.mem_singleton_self _))
    rw [constant_value] at hvalue ⊢
    exact buildsPartly_singleton (.operand hvalue)
  | tooDeep | unexpected => exact buildsPartly_nil
  | negation _ _ _ ih => exact (ih (List.forall_mem_cons.1 ht).2).unary (.inr rfl)
  | parentheses _ _ _ _ ih =>
    exact ih (List.forall_mem_cons.1 (List.forall_mem_append.1 ht).1).2
  | plus _ _ ih => exact ih (List.forall_mem_cons.1 ht).2
  | minus _ _ ih => exact (ih (List.forall_mem_cons.1 ht).2).unary (.inl rfl)
  | unsigned _ _ _ ih | simple _ _ ih => exact ih ht
  | @chain s _ _ _ _ _ _ _ _ _ _ _ ih ih' =>
    rw [List.forall_mem_append] at ht
    have hfirst := ih ht.1
    exact ih' ht.2 (by cases s <;> exact hfirst)
  | stop => exact id
  | @link s _ _ _ _ _ _ _ _ _ _ _ hk _ _ ih ih' =>
    intro hleft
    rw [List.forall_mem_append, List.forall_mem_cons] at ht
    have hright := ih ht.1.2
    exact ih' ht.2 (hleft.binary (by cases s <;> exact hright) (operator?_eq_some.1 hk))
  | relation _ hk _ ih ih' =>
    rw [List.forall_mem_append, List.forall_mem_cons] at ht
    exact (ih ht.1).binary (ih' ht.2.2) (relational?_eq_some.1 hk)

/-! ## Statements and programs -/

/-- **A reading builds partial statements**. -/
theorem ReadsStatement.builtPartly {clause : Clause} (h : ReadsStatement clause p ts ds ns q)
    (ht : ∀ t ∈ ts, t.Lexical) : ∀ n ∈ ns, IsPartialStatement n := by
  induction h with
  | @assignment p _ _ _ _ _ _ _ hk _ value =>
    rw [List.forall_mem_append, List.forall_mem_cons] at ht
    have hvalue : BuildsPartly _ := value.builtPartly ht.2
    obtain ⟨e, -, hv⟩ := identifier_value p false
    have htarget := isExpression_identifier hk ht.1.1 false
    exact List.forall_mem_singleton.2
      (.assign htarget (by rw [hv]; rfl) hvalue.length_le hvalue.expression)
  | tooDeep | empty => exact List.forall_mem_singleton.2 .noOp
  | compound _ _ _ _ ih =>
    rw [List.forall_mem_append, List.forall_mem_cons] at ht
    exact List.forall_mem_singleton.2 (.compound (ih ht.1.2))
  | finish => exact List.forall_mem_nil _
  | round _ _ _ _ ih ih' =>
    rw [List.forall_mem_append, List.forall_mem_append] at ht
    exact List.forall_mem_append.2 ⟨ih ht.1.1, ih' ht.2⟩

/-- **A reading of a program builds a block**, or nothing. -/
theorem ReadsProgram.builtPartly (h : ReadsProgram p ts ds ns q) (hn : p.nesting < maxNesting)
    (ht : ∀ t ∈ ts, t.Lexical) : ∀ n ∈ ns, IsPartialStatement n ∧ n.kind = .compound := by
  cases h with
  | nothing | noBlock => exact List.forall_mem_nil _
  | block hk root =>
    rw [List.forall_mem_append] at ht
    intro n hmem
    refine ⟨root.builtPartly ht.1 n hmem, ?_⟩
    cases root with
    | compound => exact List.mem_singleton.1 hmem ▸ rfl
    | tooDeep _ hn' => exact absurd hn (Nat.not_lt.2 hn')
    | _ => grind

end Parser

/-! ## Whole parses -/

open PascalBlock.Parser

variable {source file name : String} {tokens : List Token} {root : Node}

/-- The tree of a source is a block of partial statements. -/
theorem isPartialStatement_of_parse (h : tokenize source name = .ok tokens)
    (hroot : (parse tokens file).value = some root) :
    IsPartialStatement root ∧ root.kind = .compound := by
  have hlexical : ∀ t ∈ consumed tokens (parse tokens file), t.Lexical := fun t ht =>
    lexical_of_tokenize h t (consumed_subset tokens _ ht)
  have hlevel : (ofTokens tokens file).withStatements.nesting < maxNesting := Nat.zero_lt_succ _
  have hbuilt := (readsProgram_parse tokens file).builtPartly hlevel hlexical
  rw [hroot] at hbuilt
  exact hbuilt root (by simp)

end PascalBlock
