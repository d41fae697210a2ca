import PascalBlock.Proofs.Parser.Operand

/-!
# Readings of statements and programs

The rules for statements, as `ReadsOperand` has them for expressions: one for every way in which a
statement, the statements of a block, or a program can be read while blocks and assignments are the
statements that are known. The functions follow the rules (`reading_statement`,
`readsProgram_parse`), and the rules leave no choice.
-/

namespace PascalBlock

namespace Parser

variable {p q r : Parser} {ts us : List Token} {ds es : List Diagnostic} {ns ms : List Node}

/-- Blocks and assignments are the statements that are known. -/
def Standard (p : Parser) : Prop :=
  ∀ kind, p.handlers.lookup kind =
    if kind = .beginWord then some .compound
    else if kind = .identifier then some .assignment else none

theorem standard_withStatements (tokens : List Token) (file : String) :
    (ofTokens tokens file).withStatements.Standard := by
  intro kind
  cases kind <;> rfl

theorem Standard.of_effect (h : p.Standard) (he : Effect p ts ds q) : q.Standard := by
  rw [Standard, he.handlers]; exact h

/-- What a statement node keeps besides its children: the line of its first token. -/
def startLine (p : Parser) : Attributes := ⟨some (.line p.current.line), none, none⟩

/-- What `separate` does in a block. -/
inductive Separates : Parser → List Token → List Diagnostic → Parser → Prop
  | semicolon {p : Parser} (hk : p.kind = .semicolon) : Separates p [p.current] [] p.advance
  | missing {p : Parser} (hk : p.kind = .identifier) :
      Separates p [] [p.diagnostic .missingSemicolon .statement]
        (p.flag .missingSemicolon .statement)
  | closing {p : Parser} (hk : p.kind = .endWord ∨ p.kind = .endOfText) : Separates p [] [] p
  | stray {p : Parser} (hs : p.kind ≠ .semicolon) (hi : p.kind ≠ .identifier)
      (hk : ¬ (p.kind = .endWord ∨ p.kind = .endOfText)) :
      Separates p [p.current] [p.diagnostic (.unexpectedToken p.current.text) .statement]
        (p.flagUnexpected .statement).advance

/-- A statement, or the statements of a block up to what closes it. -/
inductive Clause where
  | statement | statements

inductive ReadsStatement :
    Clause → Parser → List Token → List Diagnostic → List Node → Parser → Prop
  | assignment {p q r : Parser} {ts ds us es ns} (hk : p.kind = .identifier)
      (sign : Expects .becomes .missingBecomes .assignment (identifier false p).after ts ds q)
      (value : ReadsOperand .expression q us es ns r) :
      ReadsStatement .statement p (p.current :: ts ++ us) (ds ++ es)
        [.mk .assign p.startLine ((identifier false p).value :: ns)] r
  | tooDeep {p : Parser} (hk : p.kind = .beginWord) (hn : maxNesting ≤ p.nesting) :
      ReadsStatement .statement p [p.current] [p.diagnostic .nestingTooDeep .compound]
        [.mk .noOp p.startLine []] (p.flag .nestingTooDeep .compound).advance
  | compound {p q r : Parser} {ts ds ns us es} (hk : p.kind = .beginWord)
      (hn : p.nesting < maxNesting)
      (body : ReadsStatement .statements p.deeper.advance ts ds ns q)
      (close : Expects .endWord .missingEnd .compound q us es r) :
      ReadsStatement .statement p (p.current :: ts ++ us) (ds ++ es)
        [.mk .compound p.startLine ns] r.exitNesting
  | empty {p : Parser} (hb : p.kind ≠ .beginWord) (hi : p.kind ≠ .identifier) :
      ReadsStatement .statement p [] [] [.mk .noOp p.startLine []] p
  | finish {p : Parser} (hk : p.kind = .endWord ∨ p.kind = .endOfText) :
      ReadsStatement .statements p [] [] [] p
  | round {p q r r' : Parser} {ts ds ns us es vs fs ms}
      (hk : ¬ (p.kind = .endWord ∨ p.kind = .endOfText))
      (one : ReadsStatement .statement p ts ds ns q) (separator : Separates q us es r)
      (rest : ReadsStatement .statements r vs fs ms r') :
      ReadsStatement .statements p (ts ++ us ++ vs) (ds ++ es ++ fs) (ns ++ ms) r'

inductive ReadsProgram : Parser → List Token → List Diagnostic → List Node → Parser → Prop
  | nothing {p : Parser} (hk : p.kind = .endOfText) : ReadsProgram p [] [] [] p
  | block {p q r : Parser} {ts ds ns us es} (hk : p.kind = .beginWord)
      (root : ReadsStatement .statement p ts ds ns q)
      (period : Expects .dot .missingPeriod .program q us es r) :
      ReadsProgram p (ts ++ us) (ds ++ es) ns r
  | noBlock {p q : Parser} {us es} (hk : p.kind ≠ .endOfText) (hb : p.kind ≠ .beginWord)
      (period : Expects .dot .missingPeriod .program (p.flagUnexpected .program) us es q) :
      ReadsProgram p us (p.diagnostic (.unexpectedToken p.current.text) .program :: es) [] q

/-! ## What holds of every reading -/

theorem Separates.effect (h : Separates p ts ds q) : Effect p ts ds q := by
  cases h with
  | semicolon hk => exact .advance (by simp [hk])
  | missing => exact .flag ..
  | closing => exact .refl _
  | stray _ _ hk => exact (Effect.flag ..).trans (.advance fun h => hk (.inr h))

theorem Separates.nesting (h : Separates p ts ds q) : q.nesting = p.nesting := by
  cases h <;> rfl

theorem ReadsStatement.nesting {clause : Clause} (h : ReadsStatement clause p ts ds ns q) :
    q.nesting = p.nesting := by
  induction h with
  | assignment _ sign value =>
    rw [value.nesting, sign.nesting, identifier_nesting]
  | tooDeep | empty | finish => rfl
  | compound _ _ _ close ih => simp [close.nesting, ih]
  | round _ _ separator _ ih ih' => rw [ih', separator.nesting, ih]

theorem ReadsStatement.effect {clause : Clause} (h : ReadsStatement clause p ts ds ns q) :
    Effect p ts ds q := by
  induction h with
  | assignment hk sign value =>
    simpa using ((effect_identifier hk false).trans (sign.effect (by decide))).trans value.effect
  | tooDeep hk => exact (Effect.flag ..).trans (.advance (by simp [hk]))
  | compound hk _ _ close ih =>
    simpa using ((ih.cons_deeper (by simp [hk])).trans (close.effect (by decide))).trans
      (.exitNesting _)
  | empty | finish => exact .refl _
  | round _ _ separator _ ih ih' => exact (ih.trans separator.effect).trans ih'

theorem ReadsProgram.effect (h : ReadsProgram p ts ds ns q) : Effect p ts ds q := by
  cases h with
  | nothing => exact .refl _
  | block _ root period => exact root.effect.trans (period.effect (by decide))
  | noBlock _ _ period => exact (Effect.flag ..).trans (period.effect (by decide))

/-- A round of a block takes a token: the first one of its statement, or else its separator. -/
theorem ReadsStatement.round_pos (hk : ¬ (p.kind = .endWord ∨ p.kind = .endOfText))
    (one : ReadsStatement .statement p ts ds ns q) (separator : Separates q us es r) :
    0 < (ts ++ us).length := by
  cases one with
  | assignment | tooDeep | compound => simp
  | empty hb hi =>
    cases separator with
    | semicolon | stray => simp
    | missing hk' => exact absurd hk' hi
    | closing hk' => exact absurd hk' hk

theorem Separates.unique (h : Separates p ts ds q) (h' : Separates p us es r) :
    ts = us ∧ ds = es ∧ q = r := by
  cases h <;> cases h' <;> grind

/-- The rules leave no choice. -/
theorem ReadsStatement.unique {clause : Clause} (h : ReadsStatement clause p ts ds ns q) :
    ∀ {us es ms r}, ReadsStatement clause p us es ms r →
      ts = us ∧ ds = es ∧ ns = ms ∧ q = r := by
  induction h with
  | assignment hk sign value =>
    intro _ _ _ _ h'
    cases h' with
    | assignment _ sign' value' =>
      obtain ⟨rfl, rfl, rfl⟩ := sign.unique sign'
      obtain ⟨rfl, rfl, rfl, rfl⟩ := value.unique value'
      exact ⟨rfl, rfl, rfl, rfl⟩
    | _ => grind
  | tooDeep | empty | finish =>
    intro _ _ _ _ h'
    cases h' <;> grind
  | compound hk hn _ close ih =>
    intro _ _ _ _ h'
    cases h' with
    | compound _ _ body' close' =>
      obtain ⟨rfl, rfl, rfl, rfl⟩ := ih body'
      obtain ⟨rfl, rfl, rfl⟩ := close.unique close'
      exact ⟨rfl, rfl, rfl, rfl⟩
    | _ => grind
  | round hk _ separator _ ih ih' =>
    intro _ _ _ _ h'
    cases h' with
    | finish hk' => exact absurd hk' hk
    | round _ one' separator' rest' =>
      obtain ⟨rfl, rfl, rfl, rfl⟩ := ih one'
      obtain ⟨rfl, rfl, rfl⟩ := separator.unique separator'
      obtain ⟨rfl, rfl, rfl, rfl⟩ := ih' rest'
      exact ⟨rfl, rfl, rfl, rfl⟩

theorem ReadsProgram.unique (h : ReadsProgram p ts ds ns q) (h' : ReadsProgram p us es ms r) :
    ts = us ∧ ds = es ∧ ns = ms ∧ q = r := by
  cases h with
  | nothing => cases h' <;> grind
  | block hk root period =>
    cases h' with
    | nothing hk' | noBlock _ hk' => grind
    | block _ root' period' =>
      obtain ⟨rfl, rfl, rfl, rfl⟩ := root.unique root'
      obtain ⟨rfl, rfl, rfl⟩ := period.unique period'
      exact ⟨rfl, rfl, rfl, rfl⟩
  | noBlock hk hb period =>
    cases h' with
    | nothing hk' | block hk' => grind
    | noBlock _ _ period' =>
      obtain ⟨rfl, rfl, rfl⟩ := period.unique period'
      exact ⟨rfl, rfl, rfl, rfl⟩

/-! ## The functions follow the rules -/

/-- What came out for `p` is a reading of a statement. -/
def StatementReading (p : Parser) (out : Parsed Node) : Prop :=
  ∃ ts ds, ReadsStatement .statement p ts ds [out.value] out.after

theorem separates_separate (p : Parser) :
    ∃ ts ds, Separates p ts ds (p.separate .endWord) := by
  unfold separate
  by_cases hs : p.kind = .semicolon
  · rw [if_pos hs]; exact ⟨_, _, .semicolon hs⟩
  rw [if_neg hs]
  by_cases hi : p.kind = .identifier
  · rw [if_pos hi]; exact ⟨_, _, .missing hi⟩
  rw [if_neg hi]
  by_cases hk : p.kind = .endWord ∨ p.kind = .endOfText
  · rw [if_pos hk]; exact ⟨_, _, .closing hk⟩
  · rw [if_neg hk]; exact ⟨_, _, .stray hs hi hk⟩

section
variable {levels : Nat} {statement : Parser → Parsed Node}

/-- The fuel of a block suffices: every round takes a token (`round_pos`). -/
theorem reading_statementRounds
    (hst : ∀ p : Parser, p.levelsLeft = levels → p.Standard → StatementReading p (statement p)) :
    ∀ (fuel : Nat) (p : Parser), p.levelsLeft = levels → p.Standard → p.cursor.count ≤ fuel →
      ∃ ts ds, ReadsStatement .statements p ts ds (statementRounds statement .endWord fuel p).value
        (statementRounds statement .endWord fuel p).after := by
  intro fuel
  induction fuel with
  | zero =>
    intro p _ _ hc
    have hk : p.kind = .endOfText := Decidable.byContradiction fun hk => by
      have := (Effect.advance hk).count
      simp only [List.length_singleton] at this; omega
    exact ⟨[], [], .finish (.inr hk)⟩
  | succ fuel ih =>
    intro p hl hp hc
    unfold statementRounds
    by_cases hk : p.kind = .endOfText ∨ p.kind = .endWord
    · rw [if_pos hk]; exact ⟨[], [], .finish hk.symm⟩
    · have hk' : ¬ (p.kind = .endWord ∨ p.kind = .endOfText) := fun h => hk h.symm
      obtain ⟨ts, ds, one⟩ := hst p hl hp
      obtain ⟨us, es, separator⟩ := separates_separate (statement p).after
      have he := one.effect.trans separator.effect
      have hpos := one.round_pos hk' separator
      have hcount := he.count
      obtain ⟨vs, fs, rest⟩ := ih ((statement p).after.separate .endWord)
        (by simp only [levelsLeft, separator.nesting, one.nesting] at hl ⊢; exact hl)
        (hp.of_effect he) (by omega)
      rw [if_neg hk]
      exact ⟨_, _, .round hk' one separator rest⟩

theorem reading_assignment (hk : p.kind = .identifier) :
    StatementReading p ⟨(assignment p).value.setAttribute .line (.line p.current.line),
      (assignment p).after⟩ := by
  obtain ⟨ts, ds, sign⟩ := Expects.expect (identifier false p).after .becomes .missingBecomes
    .assignment
  obtain ⟨us, es, value⟩ := reading_expression
    ((identifier false p).after.expect .becomes .missingBecomes .assignment)
  rw [assignment, ofChildren_pair]
  exact ⟨_, _, .assignment hk sign value⟩

theorem reading_compoundWith
    (hst : ∀ p : Parser, p.levelsLeft + 1 = levels → p.Standard →
      StatementReading p (statement p)) (hl : p.levelsLeft = levels) (hp : p.Standard)
    (hk : p.kind = .beginWord) :
    StatementReading p ⟨(compoundWith statement p).value.setAttribute .line (.line p.current.line),
      (compoundWith statement p).after⟩ := by
  unfold compoundWith
  rcases Nat.lt_or_ge p.nesting maxNesting with hn | hn
  · rw [levelsLeft_deeper hn] at hl
    obtain ⟨ts, ds, body⟩ := reading_statementRounds (fun p h => hst p (by omega))
      p.deeper.advance.cursor.count p.deeper.advance rfl hp (Nat.le_refl _)
    obtain ⟨us, es, close⟩ := Expects.expect
      (statementRounds statement .endWord p.deeper.advance.cursor.count p.deeper.advance).after
      .endWord .missingEnd .compound
    rw [nested_of_lt hn]
    exact ⟨_, _, .compound hk hn body close⟩
  · rw [nested_of_le hn]
    exact ⟨_, _, .tooDeep hk hn⟩

theorem reading_statementWith
    (hst : ∀ p : Parser, p.levelsLeft + 1 = levels → p.Standard →
      StatementReading p (statement p)) (hl : p.levelsLeft = levels) (hp : p.Standard) :
    StatementReading p (statementWith (compoundWith statement) p) := by
  simp only [statementWith, statementBy, hp p.kind]
  by_cases hb : p.kind = .beginWord
  · rw [if_pos hb]
    exact reading_compoundWith hst hl hp hb
  · rw [if_neg hb]
    by_cases hi : p.kind = .identifier
    · rw [if_pos hi]
      exact reading_assignment hi
    · rw [if_neg hi]
      exact ⟨_, _, .empty hb hi⟩

end

theorem reading_statementAt : ∀ (levels : Nat) (p : Parser), p.levelsLeft = levels → p.Standard →
    StatementReading p (statementAt levels p)
  | 0, _, hl, hp => reading_statementWith (fun _ h => by omega) hl hp
  | levels + 1, _, hl, hp =>
    reading_statementWith (fun p h => reading_statementAt levels p (by omega)) hl hp

theorem reading_statement (hp : p.Standard) : StatementReading p p.statement :=
  reading_statementAt p.levelsLeft p rfl hp

theorem atEnd_iff : p.atEnd = true ↔ p.kind = .endOfText := beq_iff_eq

theorem reading_program (hp : p.Standard) :
    ∃ ts ds, ReadsProgram p ts ds p.program.value.toList p.program.after := by
  unfold program programWith
  by_cases hk : p.kind = .endOfText
  · rw [if_pos (atEnd_iff.2 hk)]; exact ⟨_, _, .nothing hk⟩
  · rw [if_neg (mt atEnd_iff.1 hk)]
    by_cases hb : p.kind = .beginWord
    · obtain ⟨ts, ds, root⟩ := reading_statement hp
      obtain ⟨us, es, period⟩ := Expects.expect p.statement.after .dot .missingPeriod .program
      simp only [if_pos hb]
      exact ⟨_, _, .block hb root period⟩
    · obtain ⟨us, es, period⟩ := Expects.expect (p.flagUnexpected .program) .dot .missingPeriod
        .program
      simp only [if_neg hb]
      exact ⟨_, _, .noBlock hk hb period⟩

end Parser

/-! ## Whole parses -/

open PascalBlock.Parser

/-- The tokens that a parse of `tokens` took. Those are the same in every file. -/
def consumed {α : Type} (tokens : List Token) (parsed : Parsed α) : List Token :=
  (Cursor.ofTokens tokens "").upTo parsed.after.cursor

variable (tokens : List Token) (file : String)

theorem consumed_subset {α : Type} (parsed : Parsed α) : consumed tokens parsed ⊆ tokens :=
  ((List.take_prefix ..).trans (Cursor.ofTokens_prefix tokens "")).subset

theorem upTo_eq_consumed {α : Type} (parsed : Parsed α) :
    (Cursor.ofTokens tokens file).upTo parsed.after.cursor = consumed tokens parsed := by
  rw [consumed, Cursor.upTo, Cursor.upTo, Cursor.ahead_ofTokens tokens file "",
    Cursor.count_ofTokens tokens file ""]

/-- Everything that a reading of all the tokens did shows at its end. -/
theorem consumed_and_log {α : Type} (parsed : Parsed α) {ts : List Token} {ds : List Diagnostic}
    (h : Effect (ofTokens tokens file).withStatements ts ds parsed.after) :
    consumed tokens parsed = ts ∧ parsed.after.log.entries.toList = ds :=
  ⟨Cursor.upTo_eq ((Cursor.ahead_ofTokens tokens "" file).trans h.ahead), h.log⟩

/-- **A program is read by the rules**, whatever its tokens are. -/
theorem readsProgram_parse :
    ReadsProgram (ofTokens tokens file).withStatements (consumed tokens (parse tokens file))
      (parse tokens file).after.log.entries.toList (parse tokens file).value.toList
      (parse tokens file).after := by
  obtain ⟨ts, ds, h⟩ := reading_program (standard_withStatements tokens file)
  obtain ⟨hts, hds⟩ := consumed_and_log tokens file (parse tokens file) h.effect
  rw [hts, hds]
  exact h

/-- **An expression by itself is read by the rules**, whatever its tokens are. -/
theorem readsOperand_parseExpression :
    ReadsOperand .expression (ofTokens tokens file).withStatements
      (consumed tokens (parseExpression tokens file))
      (parseExpression tokens file).after.log.entries.toList
      (parseExpression tokens file).value.toList (parseExpression tokens file).after := by
  obtain ⟨ts, ds, h⟩ := reading_expression (ofTokens tokens file).withStatements
  obtain ⟨hts, hds⟩ := consumed_and_log tokens file (parseExpression tokens file) h.effect
  rw [hts, hds]
  exact h

end PascalBlock
