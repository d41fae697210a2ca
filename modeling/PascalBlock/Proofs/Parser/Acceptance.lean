import Mathlib
import PascalBlock.Proofs.Grammar
import PascalBlock.Proofs.Parser.Statement

/-!
# The grammar is what is accepted

A reading that flags nothing but unknown names follows a derivation (`ReadsOperand.derived`,
`ReadsStatement.derived`), and along every derivation there is such a reading
(`readable_of_derives`, `readable_of_derivesBlock`). As the rules of the readings leave no choice,
it is the one that the functions make, and the two together say what a parse accepts.
-/

namespace PascalBlock

open Grammar

/-! ## Sound diagnostics -/

/-- Nothing is flagged but names that are not known. -/
def Clean (ds : List Diagnostic) : Prop :=
  ∀ d ∈ ds, ∃ name, d.error.cause = .identifierUndefined name

@[simp] theorem clean_nil : Clean [] := fun _ h => absurd h List.not_mem_nil

@[simp] theorem clean_append {ds es : List Diagnostic} :
    Clean (ds ++ es) ↔ Clean ds ∧ Clean es := List.forall_mem_append

@[simp] theorem clean_cons {d : Diagnostic} {ds : List Diagnostic} :
    Clean (d :: ds) ↔ (∃ name, d.error.cause = .identifierUndefined name) ∧ Clean ds :=
  List.forall_mem_cons

namespace Parser

variable {p q r : Parser} {n : Nat} {ts us rest : List Token} {ds es : List Diagnostic}
  {ns ms : List Node} {a b o : Outline}

theorem clean_unknownName (p : Parser) : Clean p.unknownName := by
  unfold unknownName
  split <;> simp [diagnostic]

/-- A reading that flags nothing found what had to come. -/
theorem Expects.clean {kind : TokenKind} {cause : Cause} {component : Component}
    (h : Expects kind cause component p ts ds q) (hd : Clean ds)
    (hc : ∀ name, cause ≠ .identifierUndefined name) :
    p.kind = kind ∧ ts = [p.current] ∧ q = p.advance := by
  cases h with
  | found hk => exact ⟨hk, rfl, rfl⟩
  | missing => simp [diagnostic, hc] at hd

theorem outline_identifier (p : Parser) (known : Bool) :
    (identifier known p).value.outline = .operand (.variable (some p.current.name)) := by
  obtain ⟨e, he, hv⟩ := identifier_value p known
  rw [hv, Node.outline_eq]
  simp [Node.asLeaf?, Node.entry?, he, Outline.operand, Leaf.kind]

theorem outline_constant {kind : NodeKind} (hk : constantKind? p.kind = some kind) :
    ∃ leaf, p.current.asLeaf? = some leaf ∧
      (constant kind p).value.outline = .operand leaf := by
  rw [constant_value, Node.outline_eq]
  rw [← current_kind] at hk
  refine ⟨.constant kind p.current.literal, ?_, ?_⟩
  · cases hp : p.current.kind <;> simp [hp, constantKind?] at hk <;> simp [Token.asLeaf?, hp, hk]
  · cases hp : p.current.kind <;> simp [hp, constantKind?] at hk <;> subst hk <;>
      cases hl : p.current.literal <;>
        simp [Node.asLeaf?, Node.literal?, Outline.operand, Leaf.kind]

/-! ## The operators of the grammar -/

/-- The precedence that the operators of a chain share. -/
def Strength.precedence : Strength → Precedence
  | multiplicative => .multiplicative
  | additive => .additive

theorem operator?_eq_some {s : Strength} {kind : TokenKind} {op : NodeKind} :
    s.operator? kind = some op ↔ Operator s.precedence kind op := by
  constructor
  · intro h
    cases s <;> cases kind <;> cases h <;> constructor
  · intro h
    cases s <;> cases h <;> rfl

theorem relational?_eq_some {kind : TokenKind} {op : NodeKind} :
    kind.relational? = some op ↔ Operator .relational kind op := by
  constructor
  · intro h
    cases kind <;> cases h <;> constructor
  · intro h
    cases h <;> rfl

theorem outline_operator {prec : Precedence} {kind : TokenKind} {op : NodeKind}
    (h : Operator prec kind op) (ns : List Node) :
    (Node.mk op .empty ns).outline = .node op (ns.map Node.outline) := by
  cases h <;> exact Node.outline_mk rfl

/-! ## Clean readings follow derivations -/

/-- The tokens are a `symbol`, and the trees are the one that it stands for. -/
def Yields (symbol : Nonterminal) (n : Nat) (ts : List Token) (ns : List Node) : Prop :=
  ∃ o, ns.map Node.outline = [o] ∧ Derives symbol n ts o

/-- What a chain of operands is in the grammar. -/
def Strength.symbol : Strength → Nonterminal
  | multiplicative => .term
  | additive => .simpleExpression

/-- What a clean reading of a phrase derives. The links of a chain derive what their left side
becomes. -/
def Phrase.Derived (n : Nat) (ts : List Token) (ns : List Node) : Phrase → Prop
  | factor => Yields .factor n ts ns
  | signed => Yields .simpleExpression n ts ns
  | chain s => Yields s.symbol n ts ns
  | links s left => ∀ us, Yields s.symbol n us left → Yields s.symbol n (us ++ ts) ns
  | expression => Yields .expression n ts ns

/-- What stands in front of the first operator is a chain already. -/
theorem Strength.derived_first {s : Strength} (h : s.first.Derived n ts ns) :
    Yields s.symbol n ts ns := by
  cases s with
  | additive => exact h
  | multiplicative =>
    obtain ⟨o, ho, hd⟩ := h
    exact ⟨o, ho, .factor hd⟩

/-- A link makes a longer chain. -/
theorem Strength.derived_link {s : Strength} {op : NodeKind} {t : Token}
    (h : Yields s.symbol n ts ns) (ht : s.operator? t.kind = some op)
    (h' : s.operand.Derived n us ms) :
    Yields s.symbol n (ts ++ t :: us) [.mk op .empty (ns ++ ms)] := by
  obtain ⟨a, ha, hl⟩ := h
  have hop := operator?_eq_some.1 ht
  cases s with
  | multiplicative =>
    obtain ⟨b, hb, hr⟩ := h'
    exact ⟨_, by simp [outline_operator hop, ha, hb], .product hl hop hr⟩
  | additive =>
    obtain ⟨b, hb, hr⟩ := h'
    exact ⟨_, by simp [outline_operator hop, ha, hb], .sum hl hop hr⟩

/-- **A clean reading of an expression follows a derivation**. -/
theorem ReadsOperand.derived {phrase : Phrase} (h : ReadsOperand phrase p ts ds ns q)
    (hc : Clean ds) : phrase.Derived p.levelsLeft ts ns := by
  induction h with
  | @identifier p hk =>
    refine ⟨_, List.map_singleton .., ?_⟩
    rw [outline_identifier]
    exact .operand (by simp [Token.asLeaf?, current_kind, hk])
  | constant hk =>
    obtain ⟨leaf, hl, ho⟩ := outline_constant hk
    exact ⟨_, by simp [ho], .operand hl⟩
  | tooDeep | unexpected => simp [diagnostic] at hc
  | negation hk hn _ ih =>
    obtain ⟨o, ho, hd⟩ := ih hc
    rw [levelsLeft_deeper hn]
    exact ⟨_, by rw [List.map_singleton, Node.outline_mk rfl, ho], .negation hk hd⟩
  | parentheses hk hn _ close ih =>
    rw [clean_append] at hc
    obtain ⟨o, ho, hd⟩ := ih hc.1
    obtain ⟨hr, rfl, rfl⟩ := close.clean hc.2 (by simp)
    rw [levelsLeft_deeper hn]
    exact ⟨o, ho, .parentheses hk hd hr⟩
  | plus hk _ ih =>
    obtain ⟨o, ho, hd⟩ := ih hc
    exact ⟨o, ho, .plus hk hd⟩
  | minus hk _ ih =>
    obtain ⟨o, ho, hd⟩ := ih hc
    exact ⟨_, by rw [List.map_singleton, Node.outline_mk rfl, ho], .minus hk hd⟩
  | unsigned _ _ _ ih =>
    obtain ⟨o, ho, hd⟩ := ih hc
    exact ⟨o, ho, .term hd⟩
  | @chain s _ _ _ _ _ _ _ _ _ first _ ih ih' =>
    rw [clean_append] at hc
    have hrest := ih' hc.2
    rw [first.levelsLeft] at hrest
    exact hrest _ (s.derived_first (ih hc.1))
  | stop =>
    intro us h
    rwa [List.append_nil]
  | @link s _ p _ _ _ _ _ _ _ _ _ hk right _ ih ih' =>
    intro us h
    rw [clean_append] at hc
    have hrest := ih' hc.2
    rw [right.levelsLeft] at hrest
    have hlink := s.derived_link h hk (ih hc.1)
    have hall := hrest _ hlink
    rw [List.append_assoc, List.cons_append] at hall
    exact hall
  | simple _ _ ih =>
    obtain ⟨o, ho, hd⟩ := ih hc
    exact ⟨o, ho, .simple hd⟩
  | relation left hk _ ih ih' =>
    rw [clean_append] at hc
    obtain ⟨a, ha, hl⟩ := ih hc.1
    obtain ⟨b, hb, hr⟩ := ih' hc.2
    have hop := relational?_eq_some.1 hk
    rw [advance_levelsLeft, left.levelsLeft] at hr
    exact ⟨_, by simp [outline_operator hop, ha, hb], .relation hl hop hr⟩

/-- A block that is read cleanly, and closed, is a compound statement. -/
theorem derived_compound (hk : p.kind = .beginWord) (hn : p.nesting < maxNesting)
    (body : DerivesBlock .statements p.deeper.advance.levelsLeft ts (ns.map Node.outline))
    (close : Expects .endWord .missingEnd .compound q us es r) (hc : Clean es) :
    DerivesBlock .compound p.levelsLeft (p.current :: ts ++ us)
      ([Node.mk .compound p.startLine ns].map Node.outline) := by
  obtain ⟨he, rfl, -⟩ := close.clean hc (by simp)
  rw [List.map_singleton, Node.outline_mk rfl, levelsLeft_deeper hn]
  exact .compound hk body he

/-- What a clause is in the grammar. -/
def Clause.block : Clause → Block
  | statement => .statement
  | statements => .statements

/-- **A clean reading of statements follows a derivation**. -/
theorem ReadsStatement.derived {clause : Clause} (h : ReadsStatement clause p ts ds ns q)
    (hc : Clean ds) : DerivesBlock clause.block p.levelsLeft ts (ns.map Node.outline) := by
  induction h with
  | @assignment p q r ts ds us es ns hk sign value =>
    rw [clean_append] at hc
    obtain ⟨hs, rfl, rfl⟩ := sign.clean hc.1 (by simp)
    obtain ⟨o, ho, hd⟩ := value.derived hc.2
    have hl : (identifier false p).after.advance.levelsLeft = p.levelsLeft := by
      simp only [levelsLeft, advance_nesting, identifier_nesting]
    rw [hl] at hd
    rw [List.map_singleton, Node.outline_mk rfl, List.map_cons, outline_identifier, ho]
    exact .assignment hk hs hd
  | tooDeep => simp [diagnostic] at hc
  | compound hk hn _ close ih =>
    rw [clean_append] at hc
    exact .block (derived_compound hk hn (ih hc.1) close hc.2)
  | empty => exact .empty
  | finish => exact .lastEmpty
  | @round p q r r' ts ds ns us es vs fs ms hk one separator rest ih ih' =>
    rw [clean_append, clean_append] at hc
    have hone := ih hc.1.1
    have hrest := ih' hc.2
    have hl : r.levelsLeft = p.levelsLeft := by
      simp only [levelsLeft, separator.nesting, one.nesting]
    rw [hl] at hrest
    have hpos := one.round_pos hk separator
    rw [List.map_append]
    cases separator with
    | semicolon hs =>
      rw [List.append_assoc]
      exact .next hone hs hrest
    | missing => simp [diagnostic] at hc
    | stray => simp [diagnostic] at hc
    | closing hk' =>
      -- the block ends here, so there are no further rounds
      obtain ⟨rfl, -, rfl, -⟩ := rest.unique (.finish hk')
      simp only [List.append_nil, List.map_nil] at hpos ⊢
      exact .last hone (List.length_pos_iff.1 hpos)

theorem ReadsProgram.derived (h : ReadsProgram p ts ds ns q) (hc : Clean ds) :
    p.kind = .endOfText ∧ ts = [] ∨
      ∃ o, ns.map Node.outline = [o] ∧ DerivesProgram p.levelsLeft ts o := by
  cases h with
  | nothing hk => exact .inl ⟨hk, rfl⟩
  | noBlock => simp [diagnostic] at hc
  | block hk root period =>
    rw [clean_append] at hc
    obtain ⟨hd, rfl, -⟩ := period.clean hc.2 (by simp)
    cases root with
    | assignment hi | empty hb => grind
    | tooDeep => simp [diagnostic] at hc
    | compound hk hn body close =>
      have hroot := hc.1
      rw [clean_append] at hroot
      exact .inr ⟨_, rfl, .program (derived_compound hk hn (body.derived hroot.1) close hroot.2) hd⟩

/-! ## What comes next -/

/-- The kind of the first of the tokens. -/
def nextKind (ts : List Token) : TokenKind := (ts.head?.map (·.kind)).getD .endOfText

theorem nextKind_append (h : ts ≠ []) : nextKind (ts ++ us) = nextKind ts := by
  cases ts with
  | nil => exact absurd rfl h
  | cons t ts => rfl

theorem kind_eq_nextKind (h : p.cursor.ahead = ts) : p.kind = nextKind ts := by
  cases ts with
  | nil =>
    rw [← current_kind, show p.current = p.cursor.last by simp [current, Cursor.current, h]]
    exact p.cursor.last_kind
  | cons t ts => exact Cursor.kind_eq h

theorem current_eq {t : Token} (h : p.cursor.ahead = t :: ts) : p.current = t := by
  simp [current, Cursor.current, h]

theorem advance_ahead {t : Token} (h : p.cursor.ahead = t :: ts) : p.advance.cursor.ahead = ts := by
  simp [Cursor.advance, h]

/-- No operator of the precedence comes next. -/
def Ends (prec : Precedence) (rest : List Token) : Prop := ∀ op, ¬ Operator prec (nextKind rest) op

/-- An operator has one precedence. -/
theorem ends_of_operator {prec prec' : Precedence} {t : Token} {op : NodeKind}
    (h : Operator prec t.kind op) (hne : prec' ≠ prec) : Ends prec' (t :: rest) := by
  intro op' h'
  change Operator prec' t.kind op' at h'
  generalize t.kind = kind at h h'
  cases h <;> cases h' <;> exact hne rfl

theorem ends_of_kind {prec : Precedence} {t : Token} {kind : TokenKind} (hk : t.kind = kind)
    (h : ∀ op, ¬ Operator prec kind op) : Ends prec (t :: rest) := by
  intro op h'
  change Operator prec t.kind op at h'
  exact h op (hk ▸ h')

theorem operator?_eq_none {s : Strength} (h : Ends s.precedence rest)
    (ha : p.cursor.ahead = rest) : s.operator? p.kind = none := by
  cases hop : s.operator? p.kind with
  | none => rfl
  | some op => exact absurd (kind_eq_nextKind ha ▸ operator?_eq_some.1 hop) (h op)

theorem relational?_eq_none (h : Ends .relational rest) (ha : p.cursor.ahead = rest) :
    p.kind.relational? = none := by
  cases hop : p.kind.relational? with
  | none => rfl
  | some op => exact absurd (kind_eq_nextKind ha ▸ relational?_eq_some.1 hop) (h op)

/-! ## Derivations are read cleanly -/

/-- The tokens are read as a phrase with the tree `o`, and cleanly. -/
def ReadsAs (phrase : Phrase) (p : Parser) (ts : List Token) (o : Outline) (q : Parser) : Prop :=
  ∃ ds ns, ReadsOperand phrase p ts ds ns q ∧ Clean ds ∧ ns.map Node.outline = [o]

/-- The tokens are read as the beginning of a chain, which may go on. -/
def ChainsAs (s : Strength) (p : Parser) (ts : List Token) (o : Outline) (q : Parser) : Prop :=
  ∃ ds ls, Effect p ts ds q ∧ q.nesting = p.nesting ∧ Clean ds ∧ ls.map Node.outline = [o] ∧
    ∀ {us es ns r}, ReadsOperand (.links s ls) q us es ns r →
      ReadsOperand (.chain s) p (ts ++ us) (ds ++ es) ns r

theorem ReadsAs.ahead {phrase : Phrase} (h : ReadsAs phrase p ts o q)
    (ha : p.cursor.ahead = ts ++ rest) : q.cursor.ahead = rest := by
  obtain ⟨ds, ns, h, -⟩ := h
  exact h.effect.ahead_eq ha

theorem ChainsAs.ahead {s : Strength} (h : ChainsAs s p ts o q)
    (ha : p.cursor.ahead = ts ++ rest) : q.cursor.ahead = rest := by
  obtain ⟨ds, ls, h, -⟩ := h
  exact h.ahead_eq ha

theorem ChainsAs.levelsLeft {s : Strength} (h : ChainsAs s p ts o q) :
    q.levelsLeft = p.levelsLeft := by
  obtain ⟨ds, ls, -, hn, -⟩ := h
  simp only [Parser.levelsLeft, hn]

theorem ReadsAs.chains {s : Strength} (h : ReadsAs s.first p ts o q) : ChainsAs s p ts o q := by
  obtain ⟨ds, ns, h, hc, ho⟩ := h
  exact ⟨ds, ns, h.effect, h.nesting, hc, ho, fun hrest => .chain h hrest⟩

/-- A chain is all there is where no operator of its strength comes next. -/
theorem ChainsAs.stop {s : Strength} (h : ChainsAs s p ts o q)
    (ha : p.cursor.ahead = ts ++ rest) (hends : Ends s.precedence rest) :
    ReadsAs (.chain s) p ts o q := by
  have hk := operator?_eq_none hends (h.ahead ha)
  obtain ⟨ds, ls, -, -, hc, ho, h⟩ := h
  have hstop := h (.stop hk)
  rw [List.append_nil, List.append_nil] at hstop
  exact ⟨ds, ls, hstop, hc, ho⟩

theorem ChainsAs.link {s : Strength} {op : NodeKind} (h : ChainsAs s p ts a q)
    (hop : Operator s.precedence q.kind op) (h' : ReadsAs s.operand q.advance us b r) :
    ChainsAs s p (ts ++ q.current :: us) (.node op [a, b]) r := by
  obtain ⟨ds, ls, he, hn, hc, ha, h⟩ := h
  obtain ⟨es, rs, right, hc', hb⟩ := h'
  have hk := operator?_eq_some.2 hop
  refine ⟨ds ++ es, [.mk op .empty (ls ++ rs)], ?_, ?_, by simp [hc, hc'], ?_, ?_⟩
  · exact he.trans (right.effect.cons (ne_end_of_inExpression (inExpression_of_operator hk)))
  · rw [right.nesting, advance_nesting, hn]
  · rw [List.map_singleton, outline_operator hop, List.map_append, ha, hb, List.singleton_append]
  · intro vs fs ns r' rest
    have hlink := h (.link hk right rest)
    rw [← List.append_assoc, ← List.append_assoc] at hlink
    exact hlink

/-- Behind a relation no more operators are read. -/
theorem ReadsAs.relation {op : NodeKind} (h : ReadsAs (.chain .additive) p ts a q)
    (hop : Operator .relational q.kind op) (h' : ReadsAs (.chain .additive) q.advance us b r) :
    ReadsAs .expression p (ts ++ q.current :: us) (.node op [a, b]) r := by
  obtain ⟨ds, ls, left, hc, ha⟩ := h
  obtain ⟨es, rs, right, hc', hb⟩ := h'
  refine ⟨ds ++ es, _, .relation left (relational?_eq_some.2 hop) right, by simp [hc, hc'], ?_⟩
  rw [List.map_singleton, outline_operator hop, List.map_append, ha, hb, List.singleton_append]

/-- An operand is read as what it is. -/
theorem readsAs_operand {leaf : Leaf} (hl : p.current.asLeaf? = some leaf) :
    ∃ q, ReadsAs .factor p [p.current] (.operand leaf) q := by
  by_cases hi : p.kind = .identifier
  · have hleaf : leaf = .variable (some p.current.name) := by
      rw [← current_kind] at hi
      simpa [Token.asLeaf?, hi] using hl.symm
    exact ⟨_, _, _, .identifier hi, clean_unknownName p, by simp [outline_identifier, hleaf]⟩
  · cases hk : constantKind? p.kind with
    | none =>
      have hn : p.current.asLeaf? = none := asLeaf?_eq_none hi hk
      rw [hn] at hl
      cases hl
    | some kind =>
      obtain ⟨leaf', hl', ho⟩ := outline_constant hk
      cases hl.symm.trans hl'
      exact ⟨_, _, _, .constant hk, clean_nil, by simp [ho]⟩

/-- A clean term begins with a factor. -/
theorem ReadsOperand.startsFactor (h : ReadsOperand (.chain .multiplicative) p ts ds ns q)
    (hc : Clean ds) : startsFactor p.kind := by
  cases h with
  | chain first rest =>
    cases first with
    | unexpected => simp [diagnostic] at hc
    | _ => grind [Parser.startsFactor, constantKind?, opensLevel]

theorem not_sign_of_startsFactor {kind : TokenKind} (h : startsFactor kind) :
    kind ≠ .plus ∧ kind ≠ .minus := by
  constructor <;>
  · rintro rfl
    simp [startsFactor, constantKind?, opensLevel] at h

/-- A clean term begins with no sign. -/
theorem ReadsAs.unsigned (h : ReadsAs (.chain .multiplicative) p ts o q) :
    ReadsAs .signed p ts o q := by
  obtain ⟨ds, ns, h, hc, ho⟩ := h
  obtain ⟨hplus, hminus⟩ := not_sign_of_startsFactor (h.startsFactor hc)
  exact ⟨ds, ns, .unsigned hplus hminus h, hc, ho⟩

theorem startsFactor_of_asLeaf? {t : Token} {leaf : Leaf} (h : t.asLeaf? = some leaf) :
    startsFactor t.kind := by
  by_cases hi : t.kind = .identifier
  · exact .inl hi
  · cases hc : constantKind? t.kind with
    | none => simp [asLeaf?_eq_none hi hc] at h
    | some kind => exact .inr (.inl (by simp [hc]))

/-- What is derived takes tokens, and a factor and a term begin with a factor. -/
theorem startsFactor_of_derives {symbol : Nonterminal} (h : Derives symbol n ts o) :
    ∃ t us, ts = t :: us ∧ (symbol = .factor ∨ symbol = .term → startsFactor t.kind) := by
  induction h with
  | operand ht => exact ⟨_, _, rfl, fun _ => startsFactor_of_asLeaf? ht⟩
  | negation ht => exact ⟨_, _, rfl, fun _ => .inr (.inr (.inl ht))⟩
  | parentheses hl => exact ⟨_, _, rfl, fun _ => .inr (.inr (.inr hl))⟩
  | factor _ ih =>
    obtain ⟨t, us, rfl, hstart⟩ := ih
    exact ⟨t, us, rfl, fun _ => hstart (.inl rfl)⟩
  | product _ _ _ ih =>
    obtain ⟨t, us, rfl, hstart⟩ := ih
    exact ⟨t, _, rfl, fun _ => hstart (.inr rfl)⟩
  | term _ ih | simple _ ih | sum _ _ _ ih | relation _ _ _ ih =>
    obtain ⟨t, us, rfl, -⟩ := ih
    exact ⟨t, _, rfl, by simp⟩
  | plus | minus => exact ⟨_, _, rfl, by simp⟩

/-- How what is derived can be read: a term or a simple expression as the beginning of a chain, and
whatever could go on only where nothing of it comes next. -/
def Readable (n : Nat) (ts : List Token) (o : Outline) (symbol : Nonterminal) : Prop :=
  ∀ (p : Parser) (rest : List Token), p.levelsLeft = n → p.cursor.ahead = ts ++ rest →
    match symbol with
    | .factor => ∃ q, ReadsAs .factor p ts o q
    | .term => ∃ q, ChainsAs .multiplicative p ts o q
    | .simpleExpression => Ends .multiplicative rest → ∃ q, ChainsAs .additive p ts o q
    | .expression => (∀ prec, Ends prec rest) → ∃ q, ReadsAs .expression p ts o q

theorem nesting_lt (h : p.levelsLeft = n + 1) :
    p.nesting < maxNesting ∧ p.deeper.advance.levelsLeft = n := by
  have hn : p.nesting < maxNesting := by
    unfold levelsLeft at h
    omega
  rw [levelsLeft_deeper hn] at h
  exact ⟨hn, Nat.succ.inj h⟩

/-- **What is derived is read, and cleanly**. -/
theorem readable_of_derives {symbol : Nonterminal} (h : Derives symbol n ts o) :
    Readable n ts o symbol := by
  induction h with
  | operand ht =>
    intro p rest _ ha
    have hp := current_eq ha
    obtain ⟨q, hq⟩ := readsAs_operand (hp ▸ ht)
    exact ⟨q, hp ▸ hq⟩
  | @negation n t ts o ht _ ih =>
    intro p rest hl ha
    obtain ⟨hn, hl'⟩ := nesting_lt hl
    obtain rfl := current_eq ha
    obtain ⟨q, ds, ns, hq, hc, ho⟩ := ih p.deeper.advance rest hl' (advance_ahead ha)
    refine ⟨_, ds, _, .negation ht hn hq, hc, ?_⟩
    rw [List.map_singleton, Node.outline_mk rfl, ho]
  | @parentheses n l r ts o hl _ hr ih =>
    intro p rest hlevels ha
    obtain ⟨hn, hl'⟩ := nesting_lt hlevels
    rw [List.append_assoc, List.cons_append, List.singleton_append] at ha
    obtain rfl := current_eq ha
    have ha' : p.deeper.advance.cursor.ahead = ts ++ r :: rest := advance_ahead ha
    have hends : ∀ prec, Ends prec (r :: rest) := fun prec => ends_of_kind hr nofun
    obtain ⟨q, hq⟩ := ih p.deeper.advance (r :: rest) hl' ha' hends
    have hahead : q.exitNesting.cursor.ahead = r :: rest := hq.ahead ha'
    obtain rfl := current_eq hahead
    obtain ⟨ds, ns, hq, hc, ho⟩ := hq
    refine ⟨_, ds ++ [], ns, .parentheses hl hn hq (.found hr), by simpa using hc, ho⟩
  | factor _ ih =>
    intro p rest hl ha
    obtain ⟨q, hq⟩ := ih p rest hl ha
    exact ⟨q, ReadsAs.chains (s := .multiplicative) hq⟩
  | @product n t op ts us a b _ ht _ ih ih' =>
    intro p rest hl ha
    rw [List.append_assoc, List.cons_append] at ha
    obtain ⟨q, hq⟩ := ih p _ hl ha
    have hahead := hq.ahead ha
    obtain rfl := current_eq hahead
    obtain ⟨r, hr⟩ := ih' q.advance rest (hq.levelsLeft.trans hl) (advance_ahead hahead)
    exact ⟨r, hq.link ht hr⟩
  | term _ ih =>
    intro p rest hl ha hends
    obtain ⟨q, hq⟩ := ih p rest hl ha
    have hterm := hq.stop ha hends
    exact ⟨q, ReadsAs.chains (s := .additive) hterm.unsigned⟩
  | plus ht _ ih =>
    intro p rest hl ha hends
    obtain rfl := current_eq ha
    have ha' := advance_ahead ha
    obtain ⟨q, hq⟩ := ih p.advance rest hl ha'
    obtain ⟨ds, ns, hterm, hc, ho⟩ := hq.stop ha' hends
    exact ⟨q, ReadsAs.chains ⟨ds, ns, .plus ht hterm, hc, ho⟩⟩
  | minus ht _ ih =>
    intro p rest hl ha hends
    obtain rfl := current_eq ha
    have ha' := advance_ahead ha
    obtain ⟨q, hq⟩ := ih p.advance rest hl ha'
    obtain ⟨ds, ns, hterm, hc, ho⟩ := hq.stop ha' hends
    refine ⟨q, ReadsAs.chains ⟨ds, _, .minus ht hterm, hc, ?_⟩⟩
    rw [List.map_singleton, Node.outline_mk rfl, ho]
  | @sum n t op ts us a b _ ht _ ih ih' =>
    intro p rest hl ha hends
    rw [List.append_assoc, List.cons_append] at ha
    obtain ⟨q, hq⟩ := ih p _ hl ha (ends_of_operator ht nofun)
    have hahead := hq.ahead ha
    obtain rfl := current_eq hahead
    have ha' := advance_ahead hahead
    obtain ⟨r, hr⟩ := ih' q.advance rest (hq.levelsLeft.trans hl) ha'
    exact ⟨r, hq.link ht (hr.stop ha' hends)⟩
  | simple _ ih =>
    intro p rest hl ha hends
    obtain ⟨q, hq⟩ := ih p rest hl ha (hends _)
    have hahead := hq.ahead ha
    obtain ⟨ds, ns, hsimple, hc, ho⟩ := hq.stop ha (hends _)
    exact ⟨q, ds, ns, .simple hsimple (relational?_eq_none (hends _) hahead), hc, ho⟩
  | @relation n t op ts us a b _ ht _ ih ih' =>
    intro p rest hl ha hends
    rw [List.append_assoc, List.cons_append] at ha
    obtain ⟨q, hq⟩ := ih p _ hl ha (ends_of_operator ht nofun)
    have hahead := hq.ahead ha
    have hleft := hq.stop ha (ends_of_operator ht nofun)
    obtain rfl := current_eq hahead
    have ha' := advance_ahead hahead
    obtain ⟨r, hr⟩ := ih' q.advance rest (hq.levelsLeft.trans hl) ha' (hends _)
    exact ⟨r, hleft.relation ht (hr.stop ha' (hends _))⟩

/-- The tokens are read as a clause with the trees `os`, and cleanly. -/
def ReadsBlockAs (clause : Clause) (p : Parser) (ts : List Token) (os : List Outline) (q : Parser) :
    Prop :=
  ∃ ds ns, ReadsStatement clause p ts ds ns q ∧ Clean ds ∧ ns.map Node.outline = os

theorem ReadsBlockAs.ahead {clause : Clause} {os : List Outline}
    (h : ReadsBlockAs clause p ts os q) (ha : p.cursor.ahead = ts ++ rest) :
    q.cursor.ahead = rest := by
  obtain ⟨ds, ns, h, -⟩ := h
  exact h.effect.ahead_eq ha

theorem ends_of_closing (h : nextKind rest = .semicolon ∨ nextKind rest = .endWord)
    (prec : Precedence) : Ends prec rest := by
  intro op hop
  rcases h with hk | hk <;> rw [hk] at hop <;> cases hop

/-- A statement that takes tokens begins with a word or a name. -/
theorem nextKind_statement {os : List Outline} (h : DerivesBlock .statement n ts os)
    (hts : ts ≠ []) : nextKind ts = .beginWord ∨ nextKind ts = .identifier := by
  cases h with
  | block hb =>
    cases hb with
    | compound hb => exact .inl hb
  | assignment ht => exact .inr ht
  | empty => exact absurd rfl hts

theorem kind_statement {os : List Outline} (h : DerivesBlock .statement n ts os) (hts : ts ≠ [])
    (ha : p.cursor.ahead = ts ++ rest) : p.kind = .beginWord ∨ p.kind = .identifier := by
  rw [kind_eq_nextKind ha, nextKind_append hts]
  exact nextKind_statement h hts

/-- In front of a semicolon no block ends. -/
theorem kind_next {os : List Outline} {s : Token} (h : DerivesBlock .statement n ts os)
    (hs : s.kind = .semicolon) (ha : p.cursor.ahead = ts ++ s :: rest) :
    p.kind = .semicolon ∨ p.kind = .beginWord ∨ p.kind = .identifier := by
  by_cases hts : ts = []
  · subst hts
    exact .inl ((kind_eq_nextKind ha).trans hs)
  · exact .inr (kind_statement h hts ha)

/-- How what is derived of a block can be read. -/
def ReadableBlock (n : Nat) (ts : List Token) (os : List Outline) (symbol : Block) : Prop :=
  ∀ (p : Parser) (rest : List Token), p.levelsLeft = n → p.cursor.ahead = ts ++ rest →
    match symbol with
    | .compound => p.kind = .beginWord ∧ ∃ q, ReadsBlockAs .statement p ts os q
    | .statement => nextKind rest = .semicolon ∨ nextKind rest = .endWord →
        ∃ q, ReadsBlockAs .statement p ts os q
    | .statements => nextKind rest = .endWord → ∃ q, ReadsBlockAs .statements p ts os q

/-- **What is derived of a block is read, and cleanly**. -/
theorem readable_of_derivesBlock {symbol : Block} {os : List Outline}
    (h : DerivesBlock symbol n ts os) : ReadableBlock n ts os symbol := by
  induction h with
  | @compound n b e ts os hb body he ih =>
    intro p rest hl ha
    obtain ⟨hn, hl'⟩ := nesting_lt hl
    rw [List.append_assoc, List.cons_append, List.singleton_append] at ha
    obtain rfl := current_eq ha
    have ha' : p.deeper.advance.cursor.ahead = ts ++ e :: rest := advance_ahead ha
    obtain ⟨q, hq⟩ := ih p.deeper.advance (e :: rest) hl' ha' he
    obtain rfl := current_eq (hq.ahead ha')
    obtain ⟨ds, ns, hq, hc, ho⟩ := hq
    refine ⟨hb, _, ds ++ [], _, .compound hb hn hq (.found he), by simpa using hc, ?_⟩
    rw [List.map_singleton, Node.outline_mk rfl, ho]
  | block _ ih =>
    intro p rest hl ha _
    exact (ih p rest hl ha).2
  | @assignment n t s us o ht hs value =>
    intro p rest hl ha hclosing
    obtain rfl := current_eq ha
    have hp : p.kind = .identifier := ht
    have ha' : (identifier false p).after.cursor.ahead = s :: (us ++ rest) := by
      rw [identifier_cursor]
      exact advance_ahead ha
    obtain rfl := current_eq ha'
    have hl' : (identifier false p).after.advance.levelsLeft = n := by
      simp only [levelsLeft, advance_nesting, identifier_nesting] at hl ⊢
      exact hl
    obtain ⟨q, ds, ns, hq, hc, ho⟩ := readable_of_derives value (identifier false p).after.advance
      rest hl' (advance_ahead ha') (ends_of_closing hclosing)
    refine ⟨q, [] ++ ds, _, .assignment hp (.found hs) hq, by simpa using hc, ?_⟩
    rw [List.map_singleton, Node.outline_mk rfl, List.map_cons, outline_identifier, ho]
  | empty =>
    intro p rest _ ha hclosing
    rw [List.nil_append] at ha
    rw [← kind_eq_nextKind ha] at hclosing
    exact ⟨p, _, _, .empty (by grind) (by grind), clean_nil, rfl⟩
  | lastEmpty =>
    intro p rest _ ha hclosing
    rw [List.nil_append] at ha
    rw [← kind_eq_nextKind ha] at hclosing
    exact ⟨p, _, _, .finish (.inl hclosing), clean_nil, rfl⟩
  | @last n ts os h hts ih =>
    intro p rest hl ha hclosing
    obtain ⟨q, hq⟩ := ih p rest hl ha (.inr hclosing)
    have hend : q.kind = .endWord := (kind_eq_nextKind (hq.ahead ha)).trans hclosing
    obtain ⟨ds, ns, hq, hc, ho⟩ := hq
    have hk := kind_statement h hts ha
    have hround := ReadsStatement.round (by grind) hq (.closing (.inl hend)) (.finish (.inl hend))
    simp only [List.append_nil] at hround
    exact ⟨q, ds, ns, hround, hc, ho⟩
  | @next n s ts os us vs h hs _ ih ih' =>
    intro p rest hl ha hclosing
    rw [List.append_assoc, List.cons_append] at ha
    obtain ⟨q, hq⟩ := ih p (s :: (us ++ rest)) hl ha (.inl hs)
    have hahead := hq.ahead ha
    obtain rfl := current_eq hahead
    obtain ⟨ds, ns, hq, hc, ho⟩ := hq
    have hl' : q.advance.levelsLeft = n := by
      simp only [levelsLeft, advance_nesting, hq.nesting] at hl ⊢
      exact hl
    obtain ⟨r, es, ms, hr, hc', ho'⟩ := ih' q.advance rest hl' (advance_ahead hahead) hclosing
    have hk := kind_next h hs ha
    have hround := ReadsStatement.round (by grind) hq (.semicolon hs) hr
    rw [List.append_assoc, List.singleton_append, List.append_nil] at hround
    exact ⟨r, ds ++ es, ns ++ ms, hround, by simp [hc, hc'], by rw [List.map_append, ho, ho']⟩

/-- **A program that is derived is read, and cleanly**. -/
theorem reads_of_derivesProgram (h : DerivesProgram p.levelsLeft ts o)
    (ha : p.cursor.ahead = ts ++ rest) :
    ∃ ds ns q, ReadsProgram p ts ds ns q ∧ Clean ds ∧ ns.map Node.outline = [o] := by
  cases h with
  | @program d ts _ block hd =>
    rw [List.append_assoc, List.singleton_append] at ha
    obtain ⟨hk, q, hq⟩ := readable_of_derivesBlock block p (d :: rest) rfl ha
    obtain rfl := current_eq (hq.ahead ha)
    obtain ⟨ds, ns, hq, hc, ho⟩ := hq
    exact ⟨ds ++ [], ns, _, .block hk hq (.found hd), by simpa using hc, ho⟩

end Parser

/-! ## Whole parses -/

open PascalBlock.Parser

/-- The tokens up to where the text ends. -/
def body (tokens : List Token) : List Token := tokens.takeWhile (·.kind != .endOfText)

theorem body_append {ts rest : List Token} (h : ∀ t ∈ ts, t.kind ≠ .endOfText) :
    body (ts ++ rest) = ts ++ body rest := by
  unfold body
  rw [List.takeWhile_append_of_pos (by simpa using h)]

theorem body_eq_nil {tokens : List Token} : body tokens = [] ↔ nextKind tokens = .endOfText := by
  cases tokens with
  | nil => simp [body, nextKind]
  | cons t ts =>
    by_cases hk : t.kind = .endOfText <;> simp [body, nextKind, hk]

/-- An end token in the last place does not count. -/
theorem body_dropLast {tokens : List Token} {t : Token} (ht : tokens.getLast? = some t)
    (hk : t.kind = .endOfText) : body tokens.dropLast = body tokens := by
  obtain ⟨init, rfl⟩ := List.getLast?_eq_some_iff.1 ht
  rw [List.dropLast_concat, body, body, List.takeWhile_append]
  split
  · next hlen =>
    have hall : List.takeWhile (fun t => t.kind != .endOfText) init = init :=
      (List.takeWhile_prefix _).eq_of_length hlen
    simp [hall, hk]
  · rfl

/-- The cursor starts in front of the body. -/
theorem body_ahead (tokens : List Token) (file : String) :
    body (Cursor.ofTokens tokens file).ahead = body tokens := by
  unfold Cursor.ofTokens
  split
  · next h => rw [List.getLast?_eq_none_iff.1 h]
  · next t h =>
    split
    · next hk => exact body_dropLast h hk
    · rfl

theorem exists_ahead_eq (tokens : List Token) (file : String) :
    ∃ more, (Cursor.ofTokens tokens file).ahead = body tokens ++ more := by
  rw [← body_ahead tokens file]
  exact ⟨_, List.takeWhile_append_dropWhile.symm⟩

variable (tokens : List Token) (file : String)

/-- A program in front of the cursor is what a parse takes. -/
theorem parse_of_derivesProgram {ts more : List Token} {o : Outline}
    (ha : (Cursor.ofTokens tokens file).ahead = ts ++ more) (h : DerivesProgram maxNesting ts o) :
    Clean (parse tokens file).after.log.entries.toList ∧
      (Cursor.ofTokens tokens file).ahead = ts ++ (parse tokens file).after.cursor.ahead ∧
      (parse tokens file).value.map Node.outline = some o := by
  obtain ⟨ds, ns, q, hq, hc, ho⟩ := reads_of_derivesProgram
    (p := (ofTokens tokens file).withStatements) h ha
  obtain ⟨hts, rfl, rfl, rfl⟩ := hq.unique (readsProgram_parse tokens file)
  refine ⟨hc, hq.effect.ahead, ?_⟩
  cases hv : (parse tokens file).value with
  | none => simp [hv] at ho
  | some n => simpa [hv] using ho

/-- What stands in front of the body stands in front of the cursor. -/
theorem ahead_of_body {tokens ts rest : List Token} (h : body tokens = ts ++ rest) (file : String) :
    ∃ more, (Cursor.ofTokens tokens file).ahead = ts ++ more := by
  obtain ⟨more, hmore⟩ := exists_ahead_eq tokens file
  exact ⟨rest ++ more, by rw [hmore, h, List.append_assoc]⟩

/-- **The grammar is what a parse accepts**. Nothing but unknown names is flagged exactly when there
are no tokens or a program stands in front of them. It is then the program that is taken, and the
tree is the program's. -/
theorem parse_accepts_the_grammar (tokens : List Token) (file : String) :
    (Clean (parse tokens file).after.log.entries.toList ↔
      body tokens = [] ∨
        ∃ ts rest o, body tokens = ts ++ rest ∧ DerivesProgram maxNesting ts o) ∧
    ∀ ts rest o, body tokens = ts ++ rest → DerivesProgram maxNesting ts o →
      (Cursor.ofTokens tokens file).ahead = ts ++ (parse tokens file).after.cursor.ahead ∧
        (parse tokens file).value.map Node.outline = some o := by
  refine ⟨⟨?_, ?_⟩, ?_⟩
  · intro hc
    have hparse := readsProgram_parse tokens file
    rcases hparse.derived hc with ⟨hk, -⟩ | ⟨o, -, hd⟩
    · rw [kind_eq_nextKind rfl] at hk
      exact .inl (body_ahead tokens file ▸ body_eq_nil.2 hk)
    · have he := hparse.effect
      have hbody : body tokens = consumed tokens (parse tokens file) ++
          body (parse tokens file).after.cursor.ahead := by
        rw [← body_ahead tokens file, ← body_append he.taken]
        exact congrArg body he.ahead
      exact .inr ⟨_, _, o, hbody, hd⟩
  · rintro (hbody | ⟨ts, rest, o, hbody, h⟩)
    · have hk : (ofTokens tokens file).withStatements.kind = .endOfText := by
        rw [kind_eq_nextKind rfl]
        exact body_eq_nil.1 ((body_ahead tokens file).trans hbody)
      obtain ⟨-, hlog, -⟩ := (readsProgram_parse tokens file).unique (.nothing hk)
      rw [hlog]
      exact clean_nil
    · obtain ⟨more, ha⟩ := ahead_of_body hbody file
      exact (parse_of_derivesProgram tokens file ha h).1
  · intro ts rest o hbody h
    obtain ⟨more, ha⟩ := ahead_of_body hbody file
    exact (parse_of_derivesProgram tokens file ha h).2

/-- The tokens of `begin x := 1 end.` -/
def assignOne : List Token :=
  [⟨.beginWord, "begin", none, 1, ⟨"", 0⟩, ⟨"", 5⟩⟩, ⟨.identifier, "x", none, 1, ⟨"", 6⟩, ⟨"", 7⟩⟩,
    ⟨.becomes, ":=", none, 1, ⟨"", 8⟩, ⟨"", 10⟩⟩,
    ⟨.integer, "1", some (.integer 1), 1, ⟨"", 11⟩, ⟨"", 12⟩⟩,
    ⟨.endWord, "end", none, 1, ⟨"", 13⟩, ⟨"", 16⟩⟩, ⟨.dot, ".", none, 1, ⟨"", 16⟩, ⟨"", 17⟩⟩]

theorem derives_assignOne :
    DerivesProgram maxNesting assignOne
      (.node .compound [.node .assign
        [.operand (.variable (some (Unicode.lowercase "x"))),
          .operand (.constant .integerConstant (some (.integer 1)))]]) := by
  have hvalue : Derives .expression 127 [⟨.integer, "1", some (.integer 1), 1, ⟨"", 11⟩, ⟨"", 12⟩⟩]
      (.operand (.constant .integerConstant (some (.integer 1)))) :=
    .simple (.term (.factor (.operand rfl)))
  have hassign : DerivesBlock .statement 127 _ _ :=
    .assignment (t := ⟨.identifier, "x", none, 1, ⟨"", 6⟩, ⟨"", 7⟩⟩)
      (s := ⟨.becomes, ":=", none, 1, ⟨"", 8⟩, ⟨"", 10⟩⟩) rfl rfl hvalue
  exact .program (d := ⟨.dot, ".", none, 1, ⟨"", 16⟩, ⟨"", 17⟩⟩)
    (.compound (b := ⟨.beginWord, "begin", none, 1, ⟨"", 0⟩, ⟨"", 5⟩⟩)
      (e := ⟨.endWord, "end", none, 1, ⟨"", 13⟩, ⟨"", 16⟩⟩) rfl (.last hassign (by simp)) rfl) rfl

theorem parse_accepts_assignOne :
    Clean (parse assignOne "").after.log.entries.toList ∧
      (parse assignOne "").after.cursor.ahead = [] ∧
      (parse assignOne "").value.map Node.outline = some (.node .compound [.node .assign
        [.operand (.variable (some (Unicode.lowercase "x"))),
          .operand (.constant .integerConstant (some (.integer 1)))]]) := by
  have h := parse_accepts_the_grammar assignOne ""
  have hbody : body assignOne = assignOne ++ [] := by decide
  obtain ⟨hahead, hvalue⟩ := h.2 assignOne [] _ hbody derives_assignOne
  refine ⟨h.1.2 (.inr ⟨_, _, _, hbody, derives_assignOne⟩), ?_, hvalue⟩
  exact List.append_cancel_left (hahead.symm.trans (List.append_nil _).symm)

end PascalBlock
