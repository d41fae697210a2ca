import PascalBlock.Proofs.Node.Labelled
import PascalBlock.Proofs.Parser.Accepted

/-!
# Every parse labels its tree

Whatever is flagged, the rules of the readings give each node the attributes that go with its kind,
when the tokens carry what goes with theirs (`ReadsOperand.labelled`, `ReadsStatement.labelled`). So
the tree of a source is labelled, however malformed the source is.
-/

namespace PascalBlock

open Node

namespace Parser

variable {p q : Parser} {ts : List Token} {ds : List Diagnostic} {ns ms : List Node}
  {kind : TokenKind} {op : NodeKind}

theorem isOperator_of_operator {s : Strength} (h : s.operator? kind = some op) :
    op.isOperator = true := by
  cases s <;> cases kind <;> cases h <;> rfl

theorem isOperator_of_relational (h : kind.relational? = some op) : op.isOperator = true := by
  cases kind <;> cases h <;> rfl

/-! ## Operands -/

theorem labelled_identifier (hk : p.kind = .identifier) (ht : p.current.Lexical) (known : Bool) :
    Labelled (identifier known p).value := by
  obtain ⟨e, he, hv⟩ := identifier_value p known
  rw [hv]
  exact .name (he ▸ ht.name hk)

theorem labelled_constant (hk : constantKind? p.kind = some op) (ht : p.current.Lexical) :
    Labelled (constant op p).value := by
  rw [constant_value]
  rw [← current_kind] at hk
  cases hp : p.current.kind <;> rw [hp] at hk <;> cases hk
  · obtain ⟨n, hn, -⟩ := ht.integer hp
    rw [hn]
    exact .constant (.integer n)
  · obtain ⟨rank, hrank⟩ := ht.real hp
    rw [hrank]
    exact .constant (.real rank)
  · obtain ⟨text, htext⟩ := ht.string hp
    rw [htext]
    exact .constant (.string text)

theorem labelled_operator (hop : op.isOperator = true) (h : ∀ n ∈ ns, Labelled n) :
    ∀ n ∈ [.mk op .empty ns], Labelled n := List.forall_mem_singleton.2 (.operator hop h)

theorem ReadsOperand.labelled {phrase : Phrase} (h : ReadsOperand phrase p ts ds ns q)
    (ht : ∀ t ∈ ts, t.Lexical) : (∀ n ∈ phrase.before, Labelled n) → ∀ n ∈ ns, Labelled n := by
  have hnil : ∀ n ∈ ([] : List Node), Labelled n := List.forall_mem_nil _
  induction h with
  | identifier hk =>
    have htoken := ht _ (List.mem_singleton_self _)
    exact fun _ => List.forall_mem_singleton.2 (labelled_identifier hk htoken true)
  | constant hk =>
    have htoken := ht _ (List.mem_singleton_self _)
    exact fun _ => List.forall_mem_singleton.2 (labelled_constant hk htoken)
  | tooDeep | unexpected => exact fun _ => hnil
  | stop => exact id
  | negation _ _ _ ih | minus _ _ ih =>
    exact fun _ => labelled_operator rfl (ih (List.forall_mem_cons.1 ht).2 hnil)
  | parentheses _ _ _ _ ih =>
    exact fun _ => ih (List.forall_mem_cons.1 (List.forall_mem_append.1 ht).1).2 hnil
  | plus _ _ ih => exact fun _ => ih (List.forall_mem_cons.1 ht).2 hnil
  | unsigned _ _ _ ih | simple _ _ ih => exact fun _ => ih ht hnil
  | @chain s _ _ _ _ _ _ _ _ _ _ _ ih ih' =>
    rw [List.forall_mem_append] at ht
    exact fun _ => ih' ht.2 (ih ht.1 (by cases s <;> exact hnil))
  | @link s _ _ _ _ _ _ _ _ _ _ _ hk _ _ ih ih' =>
    rw [List.forall_mem_append, List.forall_mem_cons] at ht
    have hright := ih ht.1.2 (by cases s <;> exact hnil)
    exact fun hleft => ih' ht.2
      (labelled_operator (isOperator_of_operator hk) (List.forall_mem_append.2 ⟨hleft, hright⟩))
  | relation _ hk _ ih ih' =>
    rw [List.forall_mem_append, List.forall_mem_cons] at ht
    have hboth := List.forall_mem_append.2 ⟨ih ht.1 hnil, ih' ht.2.2 hnil⟩
    exact fun _ => labelled_operator (isOperator_of_relational hk) hboth

/-! ## Statements and programs -/

theorem ReadsStatement.labelled {clause : Clause} (h : ReadsStatement clause p ts ds ns q)
    (ht : ∀ t ∈ ts, t.Lexical) : ∀ n ∈ ns, Labelled n := by
  induction h with
  | assignment hk _ value =>
    rw [List.forall_mem_append, List.forall_mem_cons] at ht
    have htarget := labelled_identifier hk ht.1.1 false
    have hvalue := value.labelled ht.2 (List.forall_mem_nil _)
    exact List.forall_mem_singleton.2
      (.statement _ rfl (List.forall_mem_cons.2 ⟨htarget, hvalue⟩))
  | tooDeep | empty =>
    exact List.forall_mem_singleton.2 (.statement _ rfl (List.forall_mem_nil _))
  | compound _ _ _ _ ih =>
    rw [List.forall_mem_append, List.forall_mem_cons] at ht
    exact List.forall_mem_singleton.2 (.statement _ rfl (ih ht.1.2))
  | finish => exact List.forall_mem_nil _
  | round _ _ _ _ ih ih' =>
    rw [List.forall_mem_append, List.forall_mem_append] at ht
    exact List.forall_mem_append.2 ⟨ih ht.1.1, ih' ht.2⟩

theorem ReadsProgram.labelled (h : ReadsProgram p ts ds ns q) (ht : ∀ t ∈ ts, t.Lexical) :
    ∀ n ∈ ns, Labelled n := by
  cases h with
  | nothing | noBlock => exact List.forall_mem_nil _
  | block _ root => exact root.labelled (List.forall_mem_append.1 ht).1

end Parser

/-! ## Whole parses -/

open PascalBlock.Parser

/-- **The tree of a source is labelled**, whatever was flagged. -/
theorem labelled_of_parse {source name file : String} {tokens : List Token} {root : Node}
    (h : tokenize source name = .ok tokens) (hroot : (parse tokens file).value = some root) :
    Labelled root :=
  (readsProgram_parse tokens file).labelled
    (fun t ht => lexical_of_tokenize h t (consumed_subset tokens _ ht)) root
    (Option.mem_toList.2 hroot)

end PascalBlock
