import PascalBlock.Proofs.Node.Outline
import PascalBlock.Proofs.Parser.Statement

/-!
# Every token is accounted for

A token that a parse takes is kept, skipped by a list of statements, or dropped because it would
open a level too many. `Accounts` is the balance of a reading: what was in the trees before, and
what the tokens that were kept bring, is in the trees after. A balance is carried from one step to
the next (`Accounts.trans`), and every rule of the readings is a few such steps.

Main result: operands stand in the tree in the order in which they were
read, and of every operator there are as many nodes as tokens, up to those that were flagged.
-/

namespace PascalBlock

/-! ## Operands and operators -/

/-- The operands of trees, from left to right. -/
def Node.leaves (ns : List Node) : List Leaf := (preorderAll ns).filterMap Node.asLeaf?

/-- The operators of which none vanishes; a plus may stand in front of a term and build nothing. -/
def operatorKinds : List TokenKind :=
  [.equals, .notEquals, .lessThan, .lessEquals, .greaterThan, .greaterEquals, .orWord, .star,
    .slash, .divWord, .modWord, .andWord, .notWord, .minus]

/-- The operator that a node is built for. -/
def NodeKind.operator? : NodeKind → Option TokenKind
  | .eq => some .equals
  | .ne => some .notEquals
  | .lt => some .lessThan
  | .le => some .lessEquals
  | .gt => some .greaterThan
  | .ge => some .greaterEquals
  | .or => some .orWord
  | .multiply => some .star
  | .floatDivide => some .slash
  | .integerDivide => some .divWord
  | .mod => some .modWord
  | .and => some .andWord
  | .not => some .notWord
  | .subtract | .negate => some .minus
  | _ => none

/-- How many nodes are built for an operator. -/
def Node.built (kind : TokenKind) (ns : List Node) : Nat :=
  (preorderAll ns).countP (·.kind.operator? == some kind)

@[simp] theorem Node.leaves_nil : leaves [] = [] := rfl

@[simp] theorem Node.leaves_append (ns ms : List Node) :
    leaves (ns ++ ms) = leaves ns ++ leaves ms := by simp [leaves]

@[simp] theorem Node.built_nil (kind : TokenKind) : built kind [] = 0 := rfl

@[simp] theorem Node.built_append (kind : TokenKind) (ns ms : List Node) :
    built kind (ns ++ ms) = built kind ns + built kind ms := by simp [built]

theorem Node.leaves_singleton (n : Node) :
    leaves [n] = n.asLeaf?.toList ++ leaves n.children := by
  rw [leaves, preorderAll_cons, preorder_eq]
  cases h : n.asLeaf? <;> simp [h, leaves]

theorem Node.built_singleton (kind : TokenKind) (n : Node) :
    built kind [n] = (if n.kind.operator? = some kind then 1 else 0) + built kind n.children := by
  rw [built, preorderAll_cons, preorder_eq]
  simp [built, List.countP_cons, Nat.add_comm]

/-! ## The balance of a reading -/

/-- What became of a token that was taken. -/
inductive Fate where
  | kept
  /-- A list of statements had no use for it. -/
  | skipped
  /-- It would have opened a level too many in an expression. -/
  | dropped
deriving DecidableEq, Repr

/-- A list of statements skipped the token. -/
def Diagnostic.isSkipped (d : Diagnostic) : Bool :=
  d.component == .statement &&
    match d.error.cause with
    | .unexpectedToken _ => true
    | _ => false

/-- An expression dropped the token. -/
def Diagnostic.isDropped (d : Diagnostic) : Bool :=
  d.component == .expression && d.error.cause == .nestingTooDeep

/-- The tokens of one fate. -/
def tokensOf (fate : Fate) (fs : List (Token × Fate)) : List Token :=
  (fs.filter (·.2 == fate)).map (·.1)

/-- The operands that were kept. -/
def keptLeaves (fs : List (Token × Fate)) : List Leaf := (tokensOf .kept fs).filterMap Token.asLeaf?

/-- The tokens with their fates, and the diagnostics, account for all that is new in the trees. -/
structure Accounts (fs : List (Token × Fate)) (ds : List Diagnostic) (before after : List Node) :
    Prop where
  skipped : tokensOf .skipped fs = (ds.filter Diagnostic.isSkipped).map (·.token)
  dropped : tokensOf .dropped fs = (ds.filter Diagnostic.isDropped).map (·.token)
  skipped_kind : ∀ t ∈ tokensOf .skipped fs, t.kind ≠ .identifier
  dropped_kind : ∀ t ∈ tokensOf .dropped fs, Parser.opensLevel t.kind
  leaves : Node.leaves after = Node.leaves before ++ keptLeaves fs
  operators : ∀ kind ∈ operatorKinds,
    Node.built kind after = Node.built kind before + (tokensOf .kept fs).countP (·.kind == kind)

namespace Accounts

variable {fs gs : List (Token × Fate)} {ds es : List Diagnostic} {ns ms ls : List Node} {t : Token}

theorem tokensOf_append (fate : Fate) (fs gs : List (Token × Fate)) :
    tokensOf fate (fs ++ gs) = tokensOf fate fs ++ tokensOf fate gs := by simp [tokensOf]

theorem refl (ns : List Node) : Accounts [] [] ns ns :=
  ⟨rfl, rfl, by simp [tokensOf], by simp [tokensOf], by simp [keptLeaves, tokensOf],
    by simp [tokensOf]⟩

theorem trans (h : Accounts fs ds ls ms) (h' : Accounts gs es ms ns) :
    Accounts (fs ++ gs) (ds ++ es) ls ns where
  skipped := by simp [tokensOf_append, h.skipped, h'.skipped]
  dropped := by simp [tokensOf_append, h.dropped, h'.dropped]
  skipped_kind := by
    intro t ht
    rw [tokensOf_append, List.mem_append] at ht
    exact ht.elim (h.skipped_kind t) (h'.skipped_kind t)
  dropped_kind := by
    intro t ht
    rw [tokensOf_append, List.mem_append] at ht
    exact ht.elim (h.dropped_kind t) (h'.dropped_kind t)
  leaves := by simp [h'.leaves, h.leaves, keptLeaves, tokensOf_append]
  operators := by
    intro kind hk
    rw [h'.operators kind hk, h.operators kind hk, tokensOf_append, List.countP_append,
      Nat.add_assoc]

/-- Trees to the left stay as they are. -/
theorem frame (h : Accounts fs ds ms ns) (ls : List Node) :
    Accounts fs ds (ls ++ ms) (ls ++ ns) where
  skipped := h.skipped
  dropped := h.dropped
  skipped_kind := h.skipped_kind
  dropped_kind := h.dropped_kind
  leaves := by simp [h.leaves]
  operators := by
    intro kind hk
    rw [Node.built_append, Node.built_append, h.operators kind hk, Nat.add_assoc]

/-- A diagnostic about no token that was taken. -/
theorem flag {d : Diagnostic} (hs : d.isSkipped = false) (hd : d.isDropped = false)
    (ns : List Node) : Accounts [] [d] ns ns :=
  ⟨by simp [tokensOf, hs], by simp [tokensOf, hd], by simp [tokensOf], by simp [tokensOf],
    by simp [keptLeaves, tokensOf], by simp [tokensOf]⟩

/-- A token that is no operand and builds nothing. -/
theorem punctuation (hl : t.asLeaf? = none) (ho : t.kind ∉ operatorKinds) (ns : List Node) :
    Accounts [(t, .kept)] [] ns ns := by
  refine ⟨rfl, rfl, by simp [tokensOf], by simp [tokensOf], by simp [keptLeaves, tokensOf, hl], ?_⟩
  intro kind hk
  have hne : t.kind ≠ kind := fun h => ho (h ▸ hk)
  simp [tokensOf, hne]

theorem skip {d : Diagnostic} (hs : d.isSkipped = true) (hd : d.isDropped = false)
    (ht : d.token.kind ≠ .identifier) (ns : List Node) :
    Accounts [(d.token, .skipped)] [d] ns ns :=
  ⟨by simp [tokensOf, hs], by simp [tokensOf, hd], by simpa [tokensOf] using ht,
    by simp [tokensOf], by simp [keptLeaves, tokensOf], by simp [tokensOf]⟩

theorem drop {d : Diagnostic} (hs : d.isSkipped = false) (hd : d.isDropped = true)
    (ht : Parser.opensLevel d.token.kind) (ns : List Node) :
    Accounts [(d.token, .dropped)] [d] ns ns :=
  ⟨by simp [tokensOf, hs], by simp [tokensOf, hd], by simp [tokensOf],
    by simpa [tokensOf] using ht, by simp [keptLeaves, tokensOf], by simp [tokensOf]⟩

/-- A token becomes an operand. -/
theorem leaf {n : Node} (hl : n.asLeaf? = t.asLeaf?) (hs : t.asLeaf?.isSome)
    (hc : n.children = []) :
    Accounts [(t, .kept)] [] [] [n] := by
  obtain ⟨l, ht⟩ := Option.isSome_iff_exists.1 hs
  refine ⟨rfl, rfl, by simp [tokensOf], by simp [tokensOf], ?_, ?_⟩
  · simp [Node.leaves_singleton, keptLeaves, tokensOf, hl, hc, ht]
  · intro kind hk
    have hne : t.kind ≠ kind := by
      rintro rfl; unfold Token.asLeaf? at ht; revert hk; split at ht <;> simp_all [operatorKinds]
    have hno : n.kind.operator? = none := by
      rw [ht] at hl; unfold Node.asLeaf? at hl; split at hl <;> simp_all [NodeKind.operator?]
    simp [Node.built_singleton, hno, hc, tokensOf, hne]

/-- A token becomes an operator over trees that are there. -/
theorem operator {op : NodeKind}
    (ho : op.operator? = if t.kind ∈ operatorKinds then some t.kind else none)
    (hl : t.asLeaf? = none) (hn : (Node.mk op .empty ns).asLeaf? = none)
    (h : Accounts fs ds ms ns) : Accounts ((t, .kept) :: fs) ds ms [.mk op .empty ns] where
  skipped := h.skipped
  dropped := h.dropped
  skipped_kind := h.skipped_kind
  dropped_kind := h.dropped_kind
  leaves := by
    rw [Node.leaves_singleton, hn]
    simp [h.leaves, keptLeaves, tokensOf, hl]
  operators := by
    intro kind hk
    have he : (op.operator? = some kind) ↔ t.kind = kind := by
      rw [ho]
      split
      · simp
      · next hne => exact ⟨nofun, fun he => absurd (he ▸ hk) hne⟩
    rw [Node.built_singleton]
    by_cases hkind : t.kind = kind
    · simp [he, hkind, h.operators kind hk, tokensOf]; omega
    · simp [he, hkind, h.operators kind hk, tokensOf]

/-- A statement around trees adds nothing. -/
theorem statement {kind : NodeKind} (hk : kind = .compound ∨ kind = .assign) (a : Attributes)
    (ns : List Node) : Accounts [] [] ns [.mk kind a ns] := by
  refine ⟨rfl, rfl, by simp [tokensOf], by simp [tokensOf], ?_, ?_⟩
  · rcases hk with rfl | rfl <;> simp [Node.leaves_singleton, Node.asLeaf?, keptLeaves, tokensOf]
  · rcases hk with rfl | rfl <;> simp [Node.built_singleton, NodeKind.operator?, tokensOf]

end Accounts

namespace Parser

variable {p q : Parser} {ts us : List Token} {ds es : List Diagnostic} {ns ms ls : List Node}

/-- The tokens of a reading can be given fates that account for its trees. -/
def Accounted (ts : List Token) (ds : List Diagnostic) (before after : List Node) : Prop :=
  ∃ fs : List (Token × Fate), fs.map (·.1) = ts ∧ Accounts fs ds before after

theorem Accounted.trans (h : Accounted ts ds ls ms) (h' : Accounted us es ms ns) :
    Accounted (ts ++ us) (ds ++ es) ls ns := by
  obtain ⟨fs, rfl, hf⟩ := h
  obtain ⟨gs, rfl, hg⟩ := h'
  exact ⟨fs ++ gs, by simp, hf.trans hg⟩

theorem Accounted.frame (h : Accounted ts ds ms ns) (ls : List Node) :
    Accounted ts ds (ls ++ ms) (ls ++ ns) := by
  obtain ⟨fs, rfl, hf⟩ := h
  exact ⟨fs, rfl, hf.frame ls⟩

theorem Accounted.operator {t : Token} {op : NodeKind}
    (ho : op.operator? = if t.kind ∈ operatorKinds then some t.kind else none)
    (hl : t.asLeaf? = none) (hn : (Node.mk op .empty ns).asLeaf? = none)
    (h : Accounted ts ds ms ns) : Accounted (t :: ts) ds ms [.mk op .empty ns] := by
  obtain ⟨fs, rfl, hf⟩ := h
  exact ⟨(t, .kept) :: fs, rfl, hf.operator ho hl hn⟩

/-- A statement around the trees adds nothing. -/
theorem Accounted.statement (h : Accounted ts ds ls ns) {kind : NodeKind}
    (hk : kind = .compound ∨ kind = .assign) (a : Attributes) :
    Accounted ts ds ls [.mk kind a ns] := by
  obtain ⟨fs, rfl, hf⟩ := h
  exact ⟨fs, rfl, by simpa using hf.trans (.statement hk a ns)⟩

theorem accounted_refl (ns : List Node) : Accounted [] [] ns ns := ⟨[], rfl, .refl ns⟩

theorem accounted_flag {d : Diagnostic} (hs : d.isSkipped = false) (hd : d.isDropped = false)
    (ns : List Node) : Accounted [] [d] ns ns := ⟨[], rfl, .flag hs hd ns⟩

/-- A kind of token that is no operand and builds nothing. -/
structure IsPunctuation (kind : TokenKind) : Prop where
  not_identifier : kind ≠ .identifier
  not_constant : constantKind? kind = none
  not_operator : kind ∉ operatorKinds

theorem accounted_punctuation {kind : TokenKind} (hk : p.kind = kind) (hp : IsPunctuation kind)
    (ns : List Node) : Accounted [p.current] [] ns ns := by
  obtain ⟨hi, hc, ho⟩ := hp
  rw [← hk, ← current_kind] at hi hc ho
  exact ⟨[(p.current, .kept)], rfl, .punctuation (asLeaf?_eq_none hi hc) ho ns⟩

/-! ## Expressions -/

/-- The trees that a phrase starts from. -/
def Phrase.before : Phrase → List Node
  | .links _ left => left
  | _ => []

theorem Expects.accounted {kind : TokenKind} {cause : Cause} {component : Component}
    (h : Expects kind cause component p ts ds q) (hp : IsPunctuation kind)
    (hs : ∀ text, cause ≠ .unexpectedToken text) (hd : cause ≠ .nestingTooDeep) (ns : List Node) :
    Accounted ts ds ns ns := by
  cases h with
  | found hk => exact accounted_punctuation hk hp ns
  | missing =>
    refine accounted_flag ?_ ?_ ns
    · cases cause <;> simp_all [diagnostic, Diagnostic.isSkipped]
    · simp [diagnostic, Diagnostic.isDropped, hd]

theorem accounted_unknownName (p : Parser) (ns : List Node) : Accounted [] p.unknownName ns ns := by
  unfold unknownName
  split
  · exact accounted_refl ns
  · exact accounted_flag (by simp [diagnostic, Diagnostic.isSkipped])
      (by simp [diagnostic, Diagnostic.isDropped]) ns

theorem accounted_identifier (hk : p.kind = .identifier) (known : Bool) :
    Accounted [p.current] [] [] [(identifier known p).value] := by
  obtain ⟨e, he, hv⟩ := identifier_value p known
  rw [← current_kind] at hk
  refine ⟨[(p.current, .kept)], rfl, .leaf ?_ (by simp [Token.asLeaf?, hk]) (by simp [hv])⟩
  simp [hv, Node.asLeaf?, Node.entry?, Token.asLeaf?, hk, he]

theorem accounted_constant {kind : NodeKind} (hk : constantKind? p.kind = some kind) :
    Accounted [p.current] [] [] [(constant kind p).value] := by
  rw [constant_value]
  rw [← current_kind] at hk
  refine ⟨[(p.current, .kept)], rfl, .leaf ?_ ?_ rfl⟩
  · cases hp : p.current.kind <;> simp [hp, constantKind?] at hk <;> subst hk <;>
      cases hl : p.current.literal <;> simp [Node.asLeaf?, Node.literal?, Token.asLeaf?, hp, hl]
  · cases hp : p.current.kind <;> simp [hp, constantKind?] at hk <;> simp [Token.asLeaf?, hp]

/-- A node of an operator is no operand, nor is its token, and the one is counted with the other. -/
structure Written (kind : TokenKind) (op : NodeKind) : Prop where
  operator : op.operator? = if kind ∈ operatorKinds then some kind else none
  not_identifier : kind ≠ .identifier
  not_constant : constantKind? kind = none
  not_leaf : ∀ ns, (Node.mk op .empty ns).asLeaf? = none

theorem written_operator {s : Strength} {kind : TokenKind} {op : NodeKind}
    (h : s.operator? kind = some op) : Written kind op := by
  cases s <;> cases kind <;> cases h <;> exact ⟨by decide, by decide, rfl, fun _ => rfl⟩

theorem written_relational {kind : TokenKind} {op : NodeKind} (h : kind.relational? = some op) :
    Written kind op := by
  cases kind <;> cases h <;> exact ⟨by decide, by decide, rfl, fun _ => rfl⟩

theorem Accounted.written {kind : TokenKind} {op : NodeKind} (h : Accounted ts ds ms ns)
    (hk : p.kind = kind) (hw : Written kind op) :
    Accounted (p.current :: ts) ds ms [.mk op .empty ns] :=
  h.operator (by rw [current_kind, hk]; exact hw.operator)
    (asLeaf?_eq_none (by rw [current_kind, hk]; exact hw.not_identifier)
      (by rw [current_kind, hk]; exact hw.not_constant)) (hw.not_leaf ns)

theorem ReadsOperand.accounted {phrase : Phrase} (h : ReadsOperand phrase p ts ds ns q) :
    Accounted ts ds phrase.before ns := by
  induction h with
  | @identifier p hk =>
    have h := (accounted_unknownName p []).trans (accounted_identifier hk true)
    rw [List.append_nil] at h
    exact h
  | constant hk => exact accounted_constant hk
  | @tooDeep p hk hn =>
    exact ⟨[(p.current, .dropped)], rfl, .drop (d := p.diagnostic .nestingTooDeep .expression)
      rfl rfl hk _⟩
  | unexpected => exact accounted_flag rfl rfl _
  | negation hk _ _ ih => exact ih.written hk ⟨by decide, by decide, rfl, fun _ => rfl⟩
  | parentheses hk _ _ close ih =>
    have hopen := accounted_punctuation hk ⟨by decide, rfl, by decide⟩ []
    exact (hopen.trans ih).trans
      (close.accounted ⟨by decide, rfl, by decide⟩ nofun nofun _)
  | plus hk _ ih =>
    have hplus := accounted_punctuation hk ⟨by decide, rfl, by decide⟩ []
    exact hplus.trans ih
  | minus hk _ ih => exact ih.written hk ⟨by decide, by decide, rfl, fun _ => rfl⟩
  | unsigned _ _ _ ih | simple _ _ ih => exact ih
  | @chain s _ _ _ _ _ _ _ _ _ _ _ ih ih' =>
    have hb : s.first.before = [] := by cases s <;> rfl
    rw [hb] at ih
    exact ih.trans ih'
  | stop => exact accounted_refl _
  | @link s _ _ _ _ ls _ _ _ _ _ _ hk _ _ ih ih' =>
    have hb : s.operand.before = [] := by cases s <;> rfl
    rw [hb] at ih
    have hop := (ih.frame ls).written rfl (written_operator hk)
    rw [List.append_nil] at hop
    exact hop.trans ih'
  | @relation _ _ _ _ _ _ ls _ _ _ _ hk _ ih ih' =>
    have hop := (ih'.frame ls).written rfl (written_relational hk)
    exact ih.trans (by simpa [Phrase.before] using hop)

/-! ## Statements -/

theorem Separates.accounted (h : Separates p ts ds q) (ns : List Node) : Accounted ts ds ns ns := by
  cases h with
  | semicolon hk => exact accounted_punctuation hk ⟨by decide, rfl, by decide⟩ ns
  | missing => exact accounted_flag rfl rfl ns
  | closing => exact accounted_refl ns
  | stray _ hi =>
    exact ⟨[(p.current, .skipped)], rfl,
      .skip (d := p.diagnostic (.unexpectedToken p.current.text) .statement) rfl rfl hi ns⟩

/-- An empty statement brings nothing. -/
theorem accounted_noOp (a : Attributes) : Accounted [] [] [] [.mk .noOp a []] :=
  ⟨[], rfl, rfl, rfl, by simp [tokensOf], by simp [tokensOf],
    by simp [Node.leaves_singleton, Node.asLeaf?, keptLeaves, tokensOf],
    by simp [Node.built_singleton, NodeKind.operator?, tokensOf]⟩

theorem ReadsStatement.accounted {clause : Clause} (h : ReadsStatement clause p ts ds ns q) :
    Accounted ts ds [] ns := by
  induction h with
  | @assignment p q r ts ds us es ns hk sign value =>
    have htarget := accounted_identifier hk false
    have hsign := sign.accounted ⟨by decide, rfl, by decide⟩ nofun nofun
      [(identifier false p).value]
    have hvalue := value.accounted.frame [(identifier false p).value]
    exact ((htarget.trans hsign).trans hvalue).statement (.inr rfl) _
  | @tooDeep p hk =>
    have hbegin := accounted_punctuation hk ⟨by decide, rfl, by decide⟩ []
    have hflag : Accounted [] [p.diagnostic .nestingTooDeep .compound] [] [] :=
      accounted_flag rfl rfl []
    exact (hbegin.trans hflag).trans (accounted_noOp p.startLine)
  | compound hk _ _ close ih =>
    have hbegin := accounted_punctuation hk ⟨by decide, rfl, by decide⟩ []
    have hend := close.accounted ⟨by decide, rfl, by decide⟩ nofun nofun
    exact ((hbegin.trans ih).trans (hend _)).statement (.inl rfl) _
  | empty => exact accounted_noOp _
  | finish => exact accounted_refl []
  | @round _ _ _ _ _ _ ns _ _ _ _ _ _ _ separator _ ih ih' =>
    have hrest := ih'.frame ns
    rw [List.append_nil] at hrest
    exact (ih.trans (separator.accounted ns)).trans hrest

theorem ReadsProgram.accounted (h : ReadsProgram p ts ds ns q) : Accounted ts ds [] ns := by
  cases h with
  | nothing => exact accounted_refl []
  | block _ root period =>
    exact root.accounted.trans (period.accounted ⟨by decide, rfl, by decide⟩ nofun nofun ns)
  | noBlock _ _ period =>
    have hflag : Accounted [] [p.diagnostic (.unexpectedToken p.current.text) .program] [] [] :=
      accounted_flag rfl rfl []
    exact hflag.trans (period.accounted ⟨by decide, rfl, by decide⟩ nofun nofun [])

end Parser

/-! ## Whole parses -/

open PascalBlock.Parser

/-- The operands among the tokens that were not skipped: dropping takes none of them. -/
theorem filterMap_asLeaf_unskipped {fs : List (Token × Fate)}
    (h : ∀ t ∈ tokensOf .dropped fs, opensLevel t.kind) :
    (fs.filter (·.2 != .skipped)).filterMap (·.1.asLeaf?) = keptLeaves fs := by
  induction fs with
  | nil => rfl
  | cons f fs ih =>
    obtain ⟨t, fate⟩ := f
    cases fate with
    | kept =>
      have h' := ih (by simpa [tokensOf] using h)
      simp only [keptLeaves, tokensOf] at h' ⊢
      simp [List.filterMap_cons, h']
    | skipped => simpa [keptLeaves, tokensOf] using ih (by simpa [tokensOf] using h)
    | dropped =>
      simp only [tokensOf, List.filter_cons, beq_self_eq_true, if_true, List.map_cons,
        List.forall_mem_cons] at h
      have hl : t.asLeaf? = none := by
        rcases h.1 with hk | hk <;> simp [Token.asLeaf?, hk]
      simpa [keptLeaves, tokensOf, hl] using ih h.2

/-- Each token has one fate. -/
theorem countP_fates (fs : List (Token × Fate)) (f : Token → Bool) :
    (fs.map (·.1)).countP f = (tokensOf .kept fs).countP f + (tokensOf .skipped fs).countP f +
      (tokensOf .dropped fs).countP f := by
  induction fs with
  | nil => rfl
  | cons g fs ih =>
    obtain ⟨t, fate⟩ := g
    cases fate <;> simp [tokensOf, List.countP_cons] at ih ⊢ <;> omega

/-- Of the operators only `not` can be dropped. -/
theorem countP_dropped {ts : List Token} (h : ∀ t ∈ ts, opensLevel t.kind) {kind : TokenKind}
    (hk : kind ∈ operatorKinds) (hn : kind ≠ .notWord) : ts.countP (·.kind == kind) = 0 := by
  rw [List.countP_eq_zero]
  intro t ht heq
  rw [beq_iff_eq] at heq
  subst heq
  rcases h t ht with hnot | hopen
  · exact hn hnot
  · rw [hopen] at hk
    exact absurd hk (by decide)

/-- **Every token is accounted for**. The tokens that a parse took have fates, in their order. Those
that were skipped are those that a list of statements flagged, and no name is one of them; those
that were dropped are those that an expression flagged for a level too many. The operands among all
that were not skipped are those of the tree. Of every operator there are as many tokens as there are
nodes, tokens that were skipped and, of `not`, tokens that were dropped. -/
theorem tokens_are_accounted_for (tokens : List Token) (file : String) :
    ∃ fs : List (Token × Fate),
      fs.map (·.1) = consumed tokens (parse tokens file) ∧
      tokensOf .skipped fs =
        ((parse tokens file).after.log.entries.toList.filter Diagnostic.isSkipped).map (·.token) ∧
      tokensOf .dropped fs =
        ((parse tokens file).after.log.entries.toList.filter Diagnostic.isDropped).map (·.token) ∧
      (∀ t ∈ tokensOf .skipped fs, t.kind ≠ .identifier) ∧
      Node.leaves (parse tokens file).value.toList =
        (fs.filter (·.2 != .skipped)).filterMap (·.1.asLeaf?) ∧
      ∀ kind ∈ operatorKinds,
        (consumed tokens (parse tokens file)).countP (·.kind == kind) =
          Node.built kind (parse tokens file).value.toList +
            (tokensOf .skipped fs).countP (·.kind == kind) +
            if kind = .notWord then (tokensOf .dropped fs).countP (·.kind == kind) else 0 := by
  obtain ⟨fs, hfs, h⟩ := (readsProgram_parse tokens file).accounted
  refine ⟨fs, hfs, h.skipped, h.dropped, h.skipped_kind, ?_, ?_⟩
  · rw [filterMap_asLeaf_unskipped h.dropped_kind, h.leaves, Node.leaves_nil, List.nil_append]
  · intro kind hk
    rw [← hfs, countP_fates, h.operators kind hk, Node.built_nil, Nat.zero_add]
    by_cases hn : kind = .notWord
    · rw [if_pos hn]
    · rw [if_neg hn, countP_dropped h.dropped_kind hk hn]

end PascalBlock
