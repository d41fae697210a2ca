import PascalBlock.Proofs.Node.Outline
import PascalBlock.Proofs.Parser.Effect

/-!
# Readings of an expression

`ReadsOperand` has one rule for every way in which a part of an expression can be read, the ways of
recovery included: from a state `p`, with the tokens it takes, the diagnostics it flags, the node it
builds (none or one), up to the state `q`. No fuel and no level counter shows in it. The functions
follow the rules (`reading_expression`), and the rules leave no choice (`ReadsOperand.unique`), so
whatever holds by induction on them holds of every expression that is read.
-/

namespace PascalBlock.Parser

/-- How strongly the operators bind that are read in a row. -/
inductive Strength where
  | multiplicative | additive

/-- What an operator of this strength builds. -/
def Strength.operator? : Strength → TokenKind → Option NodeKind
  | multiplicative => TokenKind.multiplicative?
  | additive => TokenKind.additive?

/-- The parts of an expression. -/
inductive Phrase where
  | factor
  /-- A term with an optional sign. -/
  | signed
  /-- Operands with operators of one strength between them: a term, or a simple expression. -/
  | chain (strength : Strength)
  /-- What follows in a chain behind `left`. -/
  | links (strength : Strength) (left : List Node)
  | expression

namespace Strength

/-- What stands in front of the first operator of a chain. -/
def first : Strength → Phrase
  | multiplicative => .factor
  | additive => .signed

/-- What stands behind an operator. -/
def operand : Strength → Phrase
  | multiplicative => .factor
  | additive => .chain .multiplicative

end Strength

/-- The constant that a token stands for. -/
def constantKind? : TokenKind → Option NodeKind
  | .integer => some .integerConstant
  | .real => some .realConstant
  | .string => some .stringConstant
  | _ => none

/-- The tokens that open a level inside an expression. -/
def opensLevel (kind : TokenKind) : Prop := kind = .notWord ∨ kind = .leftParen

/-- The tokens that a factor begins with. -/
def startsFactor (kind : TokenKind) : Prop :=
  kind = .identifier ∨ (constantKind? kind).isSome ∨ opensLevel kind

/-- What is flagged for the name under the cursor when it has to be known. -/
def unknownName (p : Parser) : List Diagnostic :=
  match p.scopes.lookup? p.current.name with
  | some _ => []
  | none => [p.diagnostic (.identifierUndefined p.current.name) .expression]

inductive ReadsOperand :
    Phrase → Parser → List Token → List Diagnostic → List Node → Parser → Prop
  | identifier {p : Parser} (hk : p.kind = .identifier) :
      ReadsOperand .factor p [p.current] p.unknownName [(identifier true p).value]
        (identifier true p).after
  | constant {p : Parser} {kind : NodeKind} (hk : constantKind? p.kind = some kind) :
      ReadsOperand .factor p [p.current] [] [(constant kind p).value] p.advance
  | tooDeep {p : Parser} (hk : opensLevel p.kind) (hn : maxNesting ≤ p.nesting) :
      ReadsOperand .factor p [p.current] [p.diagnostic .nestingTooDeep .expression] []
        (p.flag .nestingTooDeep .expression).advance
  | unexpected {p : Parser} (hk : ¬ startsFactor p.kind) :
      ReadsOperand .factor p [] [p.diagnostic (.unexpectedToken p.current.text) .expression] []
        (p.flagUnexpected .expression)
  | negation {p q : Parser} {ts ds ns} (hk : p.kind = .notWord) (hn : p.nesting < maxNesting)
      (inner : ReadsOperand .factor p.deeper.advance ts ds ns q) :
      ReadsOperand .factor p (p.current :: ts) ds [.mk .not .empty ns] q.exitNesting
  | parentheses {p q r : Parser} {ts ds ns us es} (hk : p.kind = .leftParen)
      (hn : p.nesting < maxNesting)
      (inner : ReadsOperand .expression p.deeper.advance ts ds ns q)
      (close : Expects .rightParen .missingRightParen .expression q.exitNesting us es r) :
      ReadsOperand .factor p (p.current :: ts ++ us) (ds ++ es) ns r
  | plus {p q : Parser} {ts ds ns} (hk : p.kind = .plus)
      (term : ReadsOperand (.chain .multiplicative) p.advance ts ds ns q) :
      ReadsOperand .signed p (p.current :: ts) ds ns q
  | minus {p q : Parser} {ts ds ns} (hk : p.kind = .minus)
      (term : ReadsOperand (.chain .multiplicative) p.advance ts ds ns q) :
      ReadsOperand .signed p (p.current :: ts) ds [.mk .negate .empty ns] q
  | unsigned {p q : Parser} {ts ds ns} (hp : p.kind ≠ .plus) (hm : p.kind ≠ .minus)
      (term : ReadsOperand (.chain .multiplicative) p ts ds ns q) :
      ReadsOperand .signed p ts ds ns q
  | chain {s : Strength} {p q r : Parser} {ts ds ls us es ns}
      (first : ReadsOperand s.first p ts ds ls q)
      (rest : ReadsOperand (.links s ls) q us es ns r) :
      ReadsOperand (.chain s) p (ts ++ us) (ds ++ es) ns r
  | stop {s : Strength} {p : Parser} {ls} (hk : s.operator? p.kind = none) :
      ReadsOperand (.links s ls) p [] [] ls p
  | link {s : Strength} {op : NodeKind} {p q r : Parser} {ls ts ds rs us es ns}
      (hk : s.operator? p.kind = some op)
      (right : ReadsOperand s.operand p.advance ts ds rs q)
      (rest : ReadsOperand (.links s [.mk op .empty (ls ++ rs)]) q us es ns r) :
      ReadsOperand (.links s ls) p (p.current :: ts ++ us) (ds ++ es) ns r
  | simple {p q : Parser} {ts ds ns} (left : ReadsOperand (.chain .additive) p ts ds ns q)
      (hk : q.kind.relational? = none) : ReadsOperand .expression p ts ds ns q
  | relation {op : NodeKind} {p q r : Parser} {ts ds ls us es rs}
      (left : ReadsOperand (.chain .additive) p ts ds ls q) (hk : q.kind.relational? = some op)
      (right : ReadsOperand (.chain .additive) q.advance us es rs r) :
      ReadsOperand .expression p (ts ++ q.current :: us) (ds ++ es) [.mk op .empty (ls ++ rs)] r

variable {p q r : Parser} {ts us : List Token} {ds es : List Diagnostic} {ns ms : List Node}

/-! ## Names and constants -/

theorem asLeaf?_eq_none {t : Token} (hi : t.kind ≠ .identifier) (hc : constantKind? t.kind = none) :
    t.asLeaf? = none := by
  unfold Token.asLeaf?
  split <;> simp_all [constantKind?]

theorem resolve_name (p : Parser) (known : Bool) (name : String) :
    (p.resolve known name).value.name = name := by
  unfold resolve
  split
  · next e he => exact p.keyed.name_eq he
  · cases known <;> exact p.keyed.enter_name name

/-- A variable refers to the identifier that the current token names. -/
theorem identifier_value (p : Parser) (known : Bool) :
    ∃ e : EntryRef, e.name = p.current.name ∧
      (identifier known p).value = .mk .variable ⟨none, some (.entry e), none⟩ [] :=
  ⟨_, resolve_name p known p.current.name, rfl⟩

theorem constant_value (p : Parser) (kind : NodeKind) :
    (constant kind p).value = .mk kind ⟨none, none, p.current.literal.map .literal⟩ [] := by
  unfold constant
  cases p.current.literal <;> rfl

/-- An identifier is taken, and nothing changes but the scopes and the log. -/
theorem identifier_after (p : Parser) (known : Bool) : (identifier known p).after =
    { p.advance with
      scopes := (identifier known p).after.scopes, log := (identifier known p).after.log
      keyed := (identifier known p).after.keyed } := by
  unfold identifier resolve
  split
  · rfl
  · cases known <;> rfl

theorem identifier_cursor (p : Parser) (known : Bool) :
    (identifier known p).after.cursor = p.cursor.advance := by
  rw [identifier_after]
  rfl

theorem identifier_nesting (p : Parser) (known : Bool) :
    (identifier known p).after.nesting = p.nesting := by
  rw [identifier_after]
  rfl

theorem effect_identifier (hk : p.kind = .identifier) (known : Bool) :
    Effect p [p.current] (if known then p.unknownName else []) (identifier known p).after := by
  have hne : p.kind ≠ .endOfText := by simp [hk]
  have ha : p.cursor.ahead = p.current :: p.cursor.advance.ahead := Cursor.ahead_eq_cons hne
  have ht : ∀ t ∈ [p.current], t.kind ≠ .endOfText := List.forall_mem_singleton.2 hne
  unfold identifier resolve unknownName
  cases p.scopes.lookup? p.current.name with
  | some e => cases known <;> exact ⟨ha, ht, rfl, rfl, by simp [advance]⟩
  | none =>
    cases known with
    | false => exact ⟨ha, ht, rfl, rfl, by simp [advance]⟩
    | true => exact ⟨ha, ht, rfl, rfl, by simp [advance, flag, DiagnosticLog.flag, diagnostic]⟩

/-! ## What holds of every reading -/

/-- The kinds of token that an expression is made of. -/
def inExpression (kind : TokenKind) : Bool :=
  kind == .identifier || (constantKind? kind).isSome || kind == .notWord || kind == .leftParen ||
    kind == .rightParen || kind.multiplicative?.isSome || kind.additive?.isSome ||
    kind.relational?.isSome

section
variable {kind other : TokenKind} {op : NodeKind}

theorem inExpression_of_constant (hk : constantKind? kind = some op) : inExpression kind := by
  simp [inExpression, hk]

theorem inExpression_of_opensLevel (hk : opensLevel kind) : inExpression kind := by
  rcases hk with rfl | rfl <;> rfl

theorem inExpression_of_operator {s : Strength} (hk : s.operator? kind = some op) :
    inExpression kind := by
  cases s with
  | multiplicative => simp [inExpression, show kind.multiplicative? = some op from hk]
  | additive => simp [inExpression, show kind.additive? = some op from hk]

theorem inExpression_of_relational (hk : kind.relational? = some op) : inExpression kind := by
  simp [inExpression, hk]

theorem ne_of_inExpression (h : inExpression kind) (ho : inExpression other = false) :
    kind ≠ other := by
  rintro rfl
  rw [h] at ho
  cases ho

theorem ne_end_of_inExpression (h : inExpression kind) : kind ≠ .endOfText :=
  ne_of_inExpression h rfl

end

theorem ReadsOperand.nesting {phrase : Phrase} (h : ReadsOperand phrase p ts ds ns q) :
    q.nesting = p.nesting := by
  induction h with
  | identifier => exact identifier_nesting ..
  | constant | tooDeep | unexpected | stop => rfl
  | negation _ _ _ ih => simp [ih]
  | parentheses _ _ _ close ih => simp [close.nesting, ih]
  | plus _ _ ih | minus _ _ ih | unsigned _ _ _ ih | simple _ _ ih => simpa using ih
  | chain _ _ ih ih' | link _ _ _ ih ih' | relation _ _ _ ih ih' => simp_all

theorem ReadsOperand.effect {phrase : Phrase} (h : ReadsOperand phrase p ts ds ns q) :
    Effect p ts ds q := by
  induction h with
  | identifier hk => exact effect_identifier hk true
  | constant hk => exact .advance (ne_end_of_inExpression (inExpression_of_constant hk))
  | tooDeep hk =>
    exact (Effect.flag ..).trans
      (.advance (ne_end_of_inExpression (inExpression_of_opensLevel hk)))
  | unexpected => exact .flag ..
  | negation hk _ _ ih =>
    simpa using (ih.cons_deeper (by simp [hk])).trans (.exitNesting _)
  | parentheses hk _ _ close ih =>
    simpa using ((ih.cons_deeper (by simp [hk])).trans (.exitNesting _)).trans
      (close.effect (by decide))
  | plus hk _ ih | minus hk _ ih => exact ih.cons (by simp [hk])
  | unsigned _ _ _ ih | simple _ _ ih => exact ih
  | chain _ _ ih ih' => exact ih.trans ih'
  | stop => exact .refl _
  | link hk _ _ ih ih' =>
    exact (ih.cons (ne_end_of_inExpression (inExpression_of_operator hk))).trans ih'
  | relation _ hk _ ih ih' =>
    exact ih.trans (ih'.cons (ne_end_of_inExpression (inExpression_of_relational hk)))

/-- An expression takes only what expressions are made of. -/
theorem ReadsOperand.inExpression {phrase : Phrase} (h : ReadsOperand phrase p ts ds ns q) :
    ∀ t ∈ ts, inExpression t.kind := by
  induction h with
  | identifier hk => exact List.forall_mem_singleton.2 (by rw [current_kind, hk]; rfl)
  | constant hk => exact List.forall_mem_singleton.2 (inExpression_of_constant hk)
  | tooDeep hk => exact List.forall_mem_singleton.2 (inExpression_of_opensLevel hk)
  | unexpected | stop => exact List.forall_mem_nil _
  | negation hk _ _ ih | plus hk _ ih | minus hk _ ih =>
    exact List.forall_mem_cons.2 ⟨by rw [current_kind, hk]; rfl, ih⟩
  | parentheses hk _ _ close ih =>
    refine List.forall_mem_append.2 ⟨List.forall_mem_cons.2 ⟨?_, ih⟩, ?_⟩
    · rw [current_kind, hk]; rfl
    · exact fun t ht => by rw [close.taken t ht]; rfl
  | unsigned _ _ _ ih | simple _ _ ih => exact ih
  | chain _ _ ih ih' => exact List.forall_mem_append.2 ⟨ih, ih'⟩
  | link hk _ _ ih ih' =>
    exact List.forall_mem_append.2
      ⟨List.forall_mem_cons.2 ⟨inExpression_of_operator hk, ih⟩, ih'⟩
  | relation _ hk _ ih ih' =>
    exact List.forall_mem_append.2
      ⟨ih, List.forall_mem_cons.2 ⟨inExpression_of_relational hk, ih'⟩⟩

theorem ReadsOperand.levelsLeft {phrase : Phrase} (h : ReadsOperand phrase p ts ds ns q) :
    q.levelsLeft = p.levelsLeft := by
  simp only [Parser.levelsLeft, h.nesting]

/-- The rules leave no choice. -/
theorem ReadsOperand.unique {phrase : Phrase} (h : ReadsOperand phrase p ts ds ns q) :
    ∀ {us es ms r}, ReadsOperand phrase p us es ms r →
      ts = us ∧ ds = es ∧ ns = ms ∧ q = r := by
  induction h with
  | identifier | constant | tooDeep | unexpected | negation =>
    intro _ _ _ _ h'
    cases h' <;> grind [constantKind?, opensLevel, startsFactor]
  | parentheses hk hn _ close ih =>
    intro _ _ _ _ h'
    cases h' with
    | parentheses _ _ inner' close' =>
      obtain ⟨rfl, rfl, rfl, rfl⟩ := ih inner'
      obtain ⟨rfl, rfl, rfl⟩ := close.unique close'
      exact ⟨rfl, rfl, rfl, rfl⟩
    | _ => grind [constantKind?, opensLevel, startsFactor]
  | plus | minus | unsigned =>
    intro _ _ _ _ h'
    cases h' <;> grind
  | chain _ _ ih ih' =>
    intro _ _ _ _ h'
    cases h' with
    | chain first' rest' =>
      obtain ⟨rfl, rfl, rfl, rfl⟩ := ih first'
      obtain ⟨rfl, rfl, rfl, rfl⟩ := ih' rest'
      exact ⟨rfl, rfl, rfl, rfl⟩
  | stop =>
    intro _ _ _ _ h'
    cases h' <;> grind
  | link hk _ _ ih ih' =>
    intro _ _ _ _ h'
    cases h' with
    | stop => grind
    | link hk' right' rest' =>
      cases hk.symm.trans hk'
      obtain ⟨rfl, rfl, rfl, rfl⟩ := ih right'
      obtain ⟨rfl, rfl, rfl, rfl⟩ := ih' rest'
      exact ⟨rfl, rfl, rfl, rfl⟩
  | simple _ hk ih =>
    intro _ _ _ _ h'
    cases h' with
    | simple left' => exact ih left'
    | relation left' hk' =>
      obtain ⟨rfl, rfl, rfl, rfl⟩ := ih left'
      grind
  | relation _ hk _ ih ih' =>
    intro _ _ _ _ h'
    cases h' with
    | simple left' hk' =>
      obtain ⟨rfl, rfl, rfl, rfl⟩ := ih left'
      grind
    | relation left' hk' right' =>
      obtain ⟨rfl, rfl, rfl, rfl⟩ := ih left'
      cases hk.symm.trans hk'
      obtain ⟨rfl, rfl, rfl, rfl⟩ := ih' right'
      exact ⟨rfl, rfl, rfl, rfl⟩

/-! ## The functions follow the rules -/

/-- What came out for `p` is a reading of the phrase. -/
def Reading (phrase : Phrase) (p : Parser) (out : Parsed (Option Node)) : Prop :=
  ∃ ts ds, ReadsOperand phrase p ts ds out.value.toList out.after

theorem ofChildren_pair (kind : NodeKind) (a b : Option Node) :
    Node.ofChildren kind [a, b] = .mk kind .empty (a.toList ++ b.toList) := by
  cases a <;> cases b <;> rfl

theorem ofChildren_single (kind : NodeKind) (a : Option Node) :
    Node.ofChildren kind [a] = .mk kind .empty a.toList := by
  cases a <;> rfl

section
variable {levels : Nat} {factor : Operand}

/-- The fuel of a chain suffices: every round takes its operator. -/
theorem reading_links {s : Strength} {operand : Operand}
    (hop : ∀ p : Parser, p.levelsLeft = levels → Reading s.operand p (operand p)) :
    ∀ (fuel : Nat) (left : Option Node) (p : Parser), p.levelsLeft = levels →
      p.cursor.count ≤ fuel →
      Reading (.links s left.toList) p (chain s.operator? operand fuel left p) := by
  intro fuel
  induction fuel with
  | zero =>
    intro left p _ hc
    have hk : p.kind = .endOfText := Decidable.byContradiction fun hk => by
      have := (Effect.advance hk).count
      simp at this; omega
    exact ⟨[], [], .stop (by cases s <;> rw [hk] <;> rfl)⟩
  | succ fuel ih =>
    intro left p hl hc
    unfold chain
    cases hk : s.operator? p.kind with
    | none => exact ⟨[], [], .stop hk⟩
    | some op =>
      obtain ⟨ts, ds, hr⟩ := hop p.advance hl
      have hadv :=
        (Effect.advance (ne_end_of_inExpression (inExpression_of_operator hk))).count
      have hcount := hr.effect.count
      obtain ⟨us, es, hrest⟩ := ih (some (.ofChildren op [left, (operand p.advance).value]))
        (operand p.advance).after (hr.levelsLeft.trans hl)
        (by simp only [List.length_singleton] at hadv; omega)
      rw [ofChildren_pair] at hrest
      simp only [ofChildren_pair]
      exact ⟨_, _, .link hk hr hrest⟩

theorem reading_chainOf {s : Strength} {operand first : Operand}
    (hop : ∀ p : Parser, p.levelsLeft = levels → Reading s.operand p (operand p))
    (hf : ∀ p : Parser, p.levelsLeft = levels → Reading s.first p (first p)) (p : Parser)
    (hl : p.levelsLeft = levels) :
    Reading (.chain s) p (chainOf s.operator? operand (first p)) := by
  obtain ⟨ts, ds, hfirst⟩ := hf p hl
  obtain ⟨us, es, hrest⟩ := reading_links hop _ (first p).value (first p).after
    (hfirst.levelsLeft.trans hl) (Nat.le_refl _)
  exact ⟨_, _, .chain hfirst hrest⟩

variable (hfactor : ∀ p : Parser, p.levelsLeft = levels → Reading .factor p (factor p))
include hfactor

theorem reading_termWith (p : Parser) (hl : p.levelsLeft = levels) :
    Reading (.chain .multiplicative) p (termWith factor p) :=
  reading_chainOf (s := .multiplicative) hfactor hfactor p hl

theorem reading_signedWith (p : Parser) (hl : p.levelsLeft = levels) :
    Reading .signed p (signedWith factor p) := by
  unfold signedWith
  by_cases hm : p.kind = .minus
  · obtain ⟨ts, ds, h⟩ := reading_termWith hfactor p.advance hl
    rw [if_pos hm]
    exact ⟨p.current :: ts, ds, by
      simpa [ofChildren_single] using ReadsOperand.minus hm h⟩
  · rw [if_neg hm]
    by_cases hp : p.kind = .plus
    · obtain ⟨ts, ds, h⟩ := reading_termWith hfactor p.advance hl
      rw [if_pos hp]
      exact ⟨_, _, .plus hp h⟩
    · obtain ⟨ts, ds, h⟩ := reading_termWith hfactor p hl
      rw [if_neg hp]
      exact ⟨_, _, .unsigned hp hm h⟩

theorem reading_simpleWith (p : Parser) (hl : p.levelsLeft = levels) :
    Reading (.chain .additive) p (simpleWith factor p) :=
  reading_chainOf (s := .additive) (reading_termWith hfactor) (reading_signedWith hfactor) p hl

theorem reading_expressionWith (p : Parser) (hl : p.levelsLeft = levels) :
    Reading .expression p (expressionWith factor p) := by
  obtain ⟨ts, ds, left⟩ := reading_simpleWith hfactor p hl
  unfold expressionWith
  cases hk : (simpleWith factor p).after.kind.relational? with
  | none => exact ⟨ts, ds, by simpa [hk] using ReadsOperand.simple left hk⟩
  | some op =>
    obtain ⟨us, es, right⟩ := reading_simpleWith hfactor (simpleWith factor p).after.advance
      (left.levelsLeft.trans hl)
    exact ⟨_, ds ++ es, by
      simpa [hk, ofChildren_pair] using ReadsOperand.relation left hk right⟩

end

theorem reading_factorWith {deeper : Operand} {levels : Nat}
    (hdeeper : ∀ p : Parser, p.levelsLeft + 1 = levels → Reading .factor p (deeper p)) (p : Parser)
    (hl : p.levelsLeft = levels) : Reading .factor p (factorWith deeper p) := by
  unfold factorWith
  split
  · next hk => exact ⟨_, _, .identifier hk⟩
  · next hk => exact ⟨_, _, .constant (by rw [hk]; rfl)⟩
  · next hk => exact ⟨_, _, .constant (by rw [hk]; rfl)⟩
  · next hk => exact ⟨_, _, .constant (by rw [hk]; rfl)⟩
  · next hk =>
    rcases Nat.lt_or_ge p.nesting maxNesting with hn | hn
    · obtain ⟨ts, ds, h⟩ := hdeeper p.deeper.advance (by rw [← hl, levelsLeft_deeper hn])
      rw [nested_of_lt hn]
      exact ⟨p.current :: ts, ds, by
        simpa [negationWith, ofChildren_single] using .negation hk hn h⟩
    · rw [nested_of_le hn]
      exact ⟨_, _, .tooDeep (.inl hk) hn⟩
  · next hk =>
    rcases Nat.lt_or_ge p.nesting maxNesting with hn | hn
    · rw [levelsLeft_deeper hn] at hl
      obtain ⟨ts, ds, h⟩ := reading_expressionWith (fun p h => hdeeper p (by omega))
        p.deeper.advance rfl
      obtain ⟨us, es, hc⟩ := Expects.expect
        (expressionWith deeper p.deeper.advance).after.exitNesting .rightParen .missingRightParen
        .expression
      rw [nested_of_lt hn]
      exact ⟨_, _, .parentheses hk hn h hc⟩
    · rw [nested_of_le hn]
      exact ⟨_, _, .tooDeep (.inr hk) hn⟩
  · exact ⟨_, _, .unexpected (by grind [startsFactor, constantKind?, opensLevel])⟩

theorem reading_factorAt : ∀ (levels : Nat) (p : Parser), p.levelsLeft = levels →
    Reading .factor p (factorAt levels p)
  | 0, p, hl => reading_factorWith (fun _ h => by omega) p hl
  | levels + 1, p, hl => reading_factorWith (fun p h => reading_factorAt levels p (by omega)) p hl

/-- **An expression is read by the rules**, from any state. -/
theorem reading_expression (p : Parser) : Reading .expression p p.expression :=
  reading_expressionWith (reading_factorAt p.levelsLeft) p rfl

end PascalBlock.Parser
