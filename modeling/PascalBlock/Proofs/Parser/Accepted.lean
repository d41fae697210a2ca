import PascalBlock.Proofs.Parser.Acceptance
import PascalBlock.Proofs.Token.Lexical

/-!
# The trees of accepted programs

A reading that flags nothing but unknown names leaves no gap in the tree: every operator gets its
operands and every assignment its value (`ReadsOperand.built`, `ReadsStatement.built`). With tokens
that carry what goes with their kinds, the tree of a program that is accepted is well-formed, but
for the levels that its source text opens.
-/

namespace PascalBlock

open Node

namespace Parser

variable {p q : Parser} {ts : List Token} {ds : List Diagnostic} {ns ms : List Node}

/-! ## Expressions -/

/-- One expression is built, with no gap in it. -/
def Builds (ns : List Node) : Prop := ∃ n, ns = [n] ∧ IsExpression n

theorem Builds.binary {prec : Grammar.Precedence} {token : TokenKind} {op : NodeKind}
    (hop : Grammar.Operator prec token op) (hl : Builds ns) (hr : Builds ms) :
    Builds [.mk op .empty (ns ++ ms)] := by
  obtain ⟨left, rfl, hl⟩ := hl
  obtain ⟨right, rfl, hr⟩ := hr
  exact ⟨_, rfl, .binary hop hl hr⟩

/-- What a clean reading of a phrase builds. -/
def Phrase.Built (ns : List Node) : Phrase → Prop
  | links _ left => Builds left → Builds ns
  | _ => Builds ns

theorem isExpression_identifier (hk : p.kind = .identifier) (ht : p.current.Lexical)
    (known : Bool) : IsExpression (identifier known p).value := by
  obtain ⟨e, he, hv⟩ := identifier_value p known
  rw [hv]
  exact .name rfl (he ▸ ht.name hk)

theorem isExpression_constant {kind : NodeKind} (hk : constantKind? p.kind = some kind)
    (ht : p.current.Lexical) : IsExpression (constant kind p).value := by
  rw [constant_value]
  rw [← current_kind] at hk
  cases hp : p.current.kind <;> rw [hp] at hk <;> cases hk
  · obtain ⟨n, hn, hmax⟩ := ht.integer hp
    have hpow : maxInteger = 2 ^ 63 - 1 := rfl
    rw [hn]
    exact .integer rfl (Int.natCast_nonneg n) (by omega)
  · obtain ⟨rank, hrank⟩ := ht.real hp
    rw [hrank]
    exact .real rfl
  · obtain ⟨text, htext⟩ := ht.string hp
    rw [htext]
    exact .string rfl

/-- **A clean reading builds an expression**. -/
theorem ReadsOperand.built {phrase : Phrase} (h : ReadsOperand phrase p ts ds ns q)
    (hc : Clean ds) (ht : ∀ t ∈ ts, t.Lexical) : phrase.Built ns := by
  induction h with
  | @identifier p hk =>
    exact ⟨_, rfl, isExpression_identifier hk (ht _ (List.mem_singleton_self _)) true⟩
  | constant hk => exact ⟨_, rfl, isExpression_constant hk (ht _ (List.mem_singleton_self _))⟩
  | tooDeep | unexpected => simp [diagnostic] at hc
  | negation _ _ _ ih =>
    obtain ⟨n, rfl, hn⟩ := ih hc (List.forall_mem_cons.1 ht).2
    exact ⟨_, rfl, .not hn⟩
  | parentheses _ _ _ _ ih =>
    rw [clean_append] at hc
    exact ih hc.1 (List.forall_mem_cons.1 (List.forall_mem_append.1 ht).1).2
  | plus _ _ ih => exact ih hc (List.forall_mem_cons.1 ht).2
  | minus _ _ ih =>
    obtain ⟨n, rfl, hn⟩ := ih hc (List.forall_mem_cons.1 ht).2
    exact ⟨_, rfl, .negate hn⟩
  | unsigned _ _ _ ih | simple _ _ ih => exact ih hc ht
  | @chain s _ _ _ _ _ _ _ _ _ _ _ ih ih' =>
    rw [clean_append] at hc
    rw [List.forall_mem_append] at ht
    have hfirst := ih hc.1 ht.1
    exact ih' hc.2 ht.2 (by cases s <;> exact hfirst)
  | stop => exact id
  | @link s _ _ _ _ _ _ _ _ _ _ _ hk _ _ ih ih' =>
    intro hleft
    rw [clean_append] at hc
    rw [List.forall_mem_append, List.forall_mem_cons] at ht
    have hright := ih hc.1 ht.1.2
    exact ih' hc.2 ht.2 (hleft.binary (operator?_eq_some.1 hk) (by cases s <;> exact hright))
  | relation _ hk _ ih ih' =>
    rw [clean_append] at hc
    rw [List.forall_mem_append, List.forall_mem_cons] at ht
    exact (ih hc.1 ht.1).binary (relational?_eq_some.1 hk) (ih' hc.2 ht.2.2)

/-! ## Statements and programs -/

/-- **A clean reading builds statements**. -/
theorem ReadsStatement.built {clause : Clause} (h : ReadsStatement clause p ts ds ns q)
    (hc : Clean ds) (ht : ∀ t ∈ ts, t.Lexical) : ∀ n ∈ ns, IsStatement n := by
  induction h with
  | @assignment p _ _ _ _ _ _ _ hk _ value =>
    rw [clean_append] at hc
    rw [List.forall_mem_append, List.forall_mem_cons] at ht
    obtain ⟨n, rfl, hn⟩ := value.built hc.2 ht.2
    obtain ⟨e, -, hv⟩ := identifier_value p false
    refine List.forall_mem_singleton.2 (.assign (isExpression_identifier hk ht.1.1 false) ?_ hn)
    rw [hv]
    rfl
  | tooDeep => simp [diagnostic] at hc
  | compound _ _ _ _ ih =>
    rw [clean_append] at hc
    rw [List.forall_mem_append, List.forall_mem_cons] at ht
    exact List.forall_mem_singleton.2 (.compound (ih hc.1 ht.1.2))
  | empty => exact List.forall_mem_singleton.2 .noOp
  | finish => exact List.forall_mem_nil _
  | round _ _ _ _ ih ih' =>
    rw [clean_append, clean_append] at hc
    rw [List.forall_mem_append, List.forall_mem_append] at ht
    exact List.forall_mem_append.2 ⟨ih hc.1.1 ht.1.1, ih' hc.2 ht.2⟩

/-- **A clean reading of a program builds a block**, or nothing where there are no tokens. -/
theorem ReadsProgram.built (h : ReadsProgram p ts ds ns q) (hc : Clean ds)
    (ht : ∀ t ∈ ts, t.Lexical) : ∀ n ∈ ns, IsStatement n ∧ n.kind = .compound := by
  cases h with
  | nothing => exact List.forall_mem_nil _
  | noBlock => simp [diagnostic] at hc
  | block hk root =>
    rw [clean_append] at hc
    rw [List.forall_mem_append] at ht
    intro n hn
    refine ⟨root.built hc.1 ht.1 n hn, ?_⟩
    cases root with
    | compound => exact List.mem_singleton.1 hn ▸ rfl
    | tooDeep => simp [diagnostic] at hc
    | _ => grind

end Parser

/-! ## Whole parses -/

open PascalBlock.Parser

/-- The tree of an accepted program is a block of statements. -/
theorem isStatement_of_parse {tokens : List Token} {file : String} {root : Node}
    (hroot : (parse tokens file).value = some root)
    (hc : Clean (parse tokens file).after.log.entries.toList)
    (ht : ∀ t ∈ consumed tokens (parse tokens file), t.Lexical) :
    IsStatement root ∧ root.kind = .compound := by
  have hbuilt := (readsProgram_parse tokens file).built hc ht
  rw [hroot] at hbuilt
  exact hbuilt root (by simp)

end PascalBlock
