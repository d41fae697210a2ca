import PascalBlock.Proofs.Parser.Progress

/-!
# The calls of a parse

`Runs r p vs q` says that the routine `r` comes from the state `p` to `q`, and that `vs` are the
calls that were made on the way, in their order, its own the first. There is one rule for every way
through a routine. No fuel shows in the rules: what runs by them comes to its end because it is
done. Every routine does, whatever is ahead (`exists_runs`), and the rules leave no choice
(`Runs.unique`). Main result: every parse ends, and its tokens bound its calls.
-/

namespace PascalBlock.Parser

/-- The parts of the parser that call each other, loops included. -/
inductive Routine where
  | factor
  /-- Operands with operators of one strength between them: a term, or a simple expression. -/
  | chain (strength : Strength)
  /-- The loop of a chain behind its first operand. -/
  | links (strength : Strength)
  | expression
  | assignment
  | compound
  | statement
  /-- The loop of a list. -/
  | rounds (terminator : TokenKind)
  /-- A list and its terminator. -/
  | list (terminator : TokenKind) (cause : Cause) (component : Component)
  | program

/-- A routine, and the state that it is called in. -/
structure Call where
  routine : Routine
  state : Parser

/-- What a chain has between its operators. -/
def Strength.between : Strength → Routine
  | multiplicative => .factor
  | additive => .chain .multiplicative

/-- Past a sign. -/
def afterSign (p : Parser) : Parser := if p.kind = .plus ∨ p.kind = .minus then p.advance else p

/-- Where the first operand of a chain starts: a simple expression may have a sign before it. -/
def Strength.start : Strength → Parser → Parser
  | multiplicative, p => p
  | additive, p => p.afterSign

inductive Runs : Routine → Parser → List Call → Parser → Prop
  | identifier {p : Parser} (hk : p.kind = .identifier) :
      Runs .factor p [⟨.factor, p⟩] (identifier true p).after
  | constant {p : Parser} (hk : (constantKind? p.kind).isSome) :
      Runs .factor p [⟨.factor, p⟩] p.advance
  | tooDeep {p : Parser} (hk : opensLevel p.kind) (hn : maxNesting ≤ p.nesting) :
      Runs .factor p [⟨.factor, p⟩] (p.flag .nestingTooDeep .expression).advance
  | unexpected {p : Parser} (hk : ¬ startsFactor p.kind) :
      Runs .factor p [⟨.factor, p⟩] (p.flagUnexpected .expression)
  | negation {p q : Parser} {vs} (hk : p.kind = .notWord) (hn : p.nesting < maxNesting)
      (inner : Runs .factor p.deeper.advance vs q) :
      Runs .factor p (⟨.factor, p⟩ :: vs) q.exitNesting
  | parentheses {p q : Parser} {vs} (hk : p.kind = .leftParen) (hn : p.nesting < maxNesting)
      (inner : Runs .expression p.deeper.advance vs q) :
      Runs .factor p (⟨.factor, p⟩ :: vs)
        (q.exitNesting.expect .rightParen .missingRightParen .expression)
  | chain {s : Strength} {p q r : Parser} {vs ws} (first : Runs s.between (s.start p) vs q)
      (rest : Runs (.links s) q ws r) : Runs (.chain s) p (⟨.chain s, p⟩ :: vs ++ ws) r
  | stop {s : Strength} {p : Parser} (hk : s.operator? p.kind = none) :
      Runs (.links s) p [⟨.links s, p⟩] p
  | link {s : Strength} {p q r : Parser} {vs ws} (hk : (s.operator? p.kind).isSome)
      (right : Runs s.between p.advance vs q) (rest : Runs (.links s) q ws r) :
      Runs (.links s) p (⟨.links s, p⟩ :: vs ++ ws) r
  | simple {p q : Parser} {vs} (left : Runs (.chain .additive) p vs q)
      (hk : q.kind.relational? = none) : Runs .expression p (⟨.expression, p⟩ :: vs) q
  | relation {p q r : Parser} {vs ws} (left : Runs (.chain .additive) p vs q)
      (hk : q.kind.relational?.isSome) (right : Runs (.chain .additive) q.advance ws r) :
      Runs .expression p (⟨.expression, p⟩ :: vs ++ ws) r
  | assignment {p q : Parser} {vs} (value : Runs .expression
        ((PascalBlock.Parser.identifier false p).after.expect .becomes .missingBecomes .assignment)
        vs q) :
      Runs .assignment p (⟨.assignment, p⟩ :: vs) q
  | blockTooDeep {p : Parser} (hn : maxNesting ≤ p.nesting) :
      Runs .compound p [⟨.compound, p⟩] (p.flag .nestingTooDeep .compound).advance
  | compound {p q : Parser} {vs} (hn : p.nesting < maxNesting)
      (body : Runs (.list .endWord .missingEnd .compound) p.deeper.advance vs q) :
      Runs .compound p (⟨.compound, p⟩ :: vs) q.exitNesting
  | block {p q : Parser} {vs} (hk : p.kind = .beginWord) (body : Runs .compound p vs q) :
      Runs .statement p (⟨.statement, p⟩ :: vs) q
  | assigns {p q : Parser} {vs} (hk : p.kind = .identifier) (body : Runs .assignment p vs q) :
      Runs .statement p (⟨.statement, p⟩ :: vs) q
  | empty {p : Parser} (hb : p.kind ≠ .beginWord) (hi : p.kind ≠ .identifier) :
      Runs .statement p [⟨.statement, p⟩] p
  | finish {t : TokenKind} {p : Parser} (hk : p.kind = .endOfText ∨ p.kind = t) :
      Runs (.rounds t) p [⟨.rounds t, p⟩] p
  | round {t : TokenKind} {p q r : Parser} {vs ws} (hk : ¬ (p.kind = .endOfText ∨ p.kind = t))
      (one : Runs .statement p vs q) (rest : Runs (.rounds t) (q.separate t) ws r) :
      Runs (.rounds t) p (⟨.rounds t, p⟩ :: vs ++ ws) r
  | list {t : TokenKind} {cause : Cause} {component : Component} {p q : Parser} {vs}
      (loop : Runs (.rounds t) p vs q) :
      Runs (.list t cause component) p (⟨.list t cause component, p⟩ :: vs)
        (q.expect t cause component)
  | nothing {p : Parser} (hk : p.kind = .endOfText) : Runs .program p [⟨.program, p⟩] p
  | program {p q : Parser} {vs} (hk : p.kind = .beginWord) (root : Runs .statement p vs q) :
      Runs .program p (⟨.program, p⟩ :: vs) (q.expect .dot .missingPeriod .program)
  | noBlock {p : Parser} (hk : p.kind ≠ .endOfText) (hb : p.kind ≠ .beginWord) :
      Runs .program p [⟨.program, p⟩]
        ((p.flagUnexpected .program).expect .dot .missingPeriod .program)

variable {p q : Parser} {vs : List Call}

/-- The rules leave no choice. -/
theorem Runs.unique {routine : Routine} (h : Runs routine p vs q) :
    ∀ {ws r}, Runs routine p ws r → vs = ws ∧ q = r := by
  induction h with
  | identifier | constant | tooDeep | unexpected | negation | parentheses =>
    intro _ _ h'
    cases h' <;> grind [constantKind?, opensLevel, startsFactor]
  | chain | link | simple | relation | assignment | compound | block | assigns | round | list
  | program =>
    intro _ _ h'
    cases h' <;> grind
  | stop | blockTooDeep | empty | finish | nothing | noBlock =>
    intro _ _ h'
    cases h' <;> grind

/-! ## The functions follow the rules -/

/-- What reads between the operators of a chain, where `levels` more levels may be opened. -/
def Strength.reader : Strength → Nat → Operand
  | multiplicative, levels => factorAt levels
  | additive, levels => termWith (factorAt levels)

/-- The state in which a routine leaves the parser. -/
def Routine.outcome : Routine → Parser → Parser
  | .factor, p => p.factor.after
  | .chain .multiplicative, p => p.term.after
  | .chain .additive, p => p.simpleExpression.after
  | .links s, p =>
    (Parser.chain s.operator? (s.reader p.levelsLeft) p.cursor.count none p).after
  | .expression, p => p.expression.after
  | .assignment, p => (Parser.assignment p).after
  | .compound, p => p.compound.after
  | .statement, p => p.statement.after
  | .rounds t, p => (statementRounds Parser.statement t p.cursor.count p).after
  | .list t cause component, p => (statementList Parser.statement t cause component p).after
  | .program, p => p.program.after

/-! ### Expressions -/

/-- The routine that reads a phrase. -/
def Phrase.routine : Phrase → Routine
  | factor => .factor
  | signed => .chain .multiplicative
  | chain s => .chain s
  | links s _ => .links s
  | expression => .expression

/-- Where that routine starts: no routine reads a sign by itself. -/
def Phrase.start : Phrase → Parser → Parser
  | signed, p => p.afterSign
  | _, p => p

theorem Strength.routine_first (s : Strength) : s.first.routine = s.between := by cases s <;> rfl

theorem Strength.start_first (s : Strength) : s.first.start = s.start := by cases s <;> rfl

theorem Strength.routine_operand (s : Strength) : s.operand.routine = s.between := by
  cases s <;> rfl

theorem Strength.start_operand (s : Strength) (p : Parser) : s.operand.start p = p := by
  cases s <;> rfl

section
variable {kind : TokenKind} {cause : Cause} {component : Component} {ts : List Token}
  {ds : List Diagnostic} {ns : List Node}

theorem Expects.eq_expect (h : Expects kind cause component p ts ds q) :
    q = p.expect kind cause component := by
  obtain ⟨_, _, h'⟩ := Expects.expect p kind cause component
  exact (h.unique h').2.2

theorem Separates.eq_separate (h : Separates p ts ds q) : q = p.separate .endWord := by
  obtain ⟨_, _, h'⟩ := separates_separate p
  exact (h.unique h').2.2

theorem ReadsOperand.exists_runs {phrase : Phrase} (h : ReadsOperand phrase p ts ds ns q) :
    ∃ vs, Runs phrase.routine (phrase.start p) vs q := by
  induction h with
  | identifier hk => exact ⟨_, .identifier hk⟩
  | constant hk => exact ⟨_, .constant (Option.isSome_of_eq_some hk)⟩
  | tooDeep hk hn => exact ⟨_, .tooDeep hk hn⟩
  | unexpected hk => exact ⟨_, .unexpected hk⟩
  | negation hk hn _ ih =>
    obtain ⟨vs, inner⟩ := ih
    exact ⟨_, .negation hk hn inner⟩
  | parentheses hk hn _ close ih =>
    obtain ⟨vs, inner⟩ := ih
    rw [close.eq_expect]
    exact ⟨_, .parentheses hk hn inner⟩
  | plus hk _ ih | minus hk _ ih =>
    simpa only [Phrase.routine, Phrase.start, afterSign, hk, true_or, or_true, if_pos] using ih
  | unsigned hp hm _ ih =>
    simpa only [Phrase.routine, Phrase.start, afterSign, if_neg (not_or.2 ⟨hp, hm⟩)] using ih
  | @chain s _ _ _ _ _ _ _ _ _ _ _ ih ih' =>
    obtain ⟨vs, first⟩ := ih
    obtain ⟨ws, rest⟩ := ih'
    rw [s.routine_first, s.start_first] at first
    exact ⟨_, .chain first rest⟩
  | stop hk => exact ⟨_, .stop hk⟩
  | @link s _ _ _ _ _ _ _ _ _ _ _ hk _ _ ih ih' =>
    obtain ⟨vs, right⟩ := ih
    obtain ⟨ws, rest⟩ := ih'
    rw [s.routine_operand, s.start_operand] at right
    exact ⟨_, .link (Option.isSome_of_eq_some hk) right rest⟩
  | simple _ hk ih =>
    obtain ⟨vs, left⟩ := ih
    exact ⟨_, .simple left hk⟩
  | relation _ hk _ ih ih' =>
    obtain ⟨vs, left⟩ := ih
    obtain ⟨ws, right⟩ := ih'
    exact ⟨_, .relation left (Option.isSome_of_eq_some hk) right⟩

end

theorem exists_runs_expression (p : Parser) : ∃ vs, Runs .expression p vs p.expression.after := by
  obtain ⟨_, _, h⟩ := reading_expression p
  exact h.exists_runs

theorem exists_runs_chain (s : Strength) (p : Parser) :
    ∃ vs, Runs (.chain s) p vs (Routine.outcome (.chain s) p) := by
  have hfactor := reading_factorAt p.levelsLeft
  cases s with
  | multiplicative =>
    obtain ⟨_, _, h⟩ := reading_termWith hfactor p rfl
    exact h.exists_runs
  | additive =>
    obtain ⟨_, _, h⟩ := reading_simpleWith hfactor p rfl
    exact h.exists_runs

theorem exists_runs_links (s : Strength) (p : Parser) :
    ∃ vs, Runs (.links s) p vs (Routine.outcome (.links s) p) := by
  have hfactor := reading_factorAt p.levelsLeft
  have hoperand : ∀ q : Parser, q.levelsLeft = p.levelsLeft →
      Reading s.operand q (s.reader p.levelsLeft q) := by
    cases s with
    | multiplicative => exact hfactor
    | additive => exact reading_termWith hfactor
  obtain ⟨_, _, h⟩ := reading_links hoperand p.cursor.count none p rfl (Nat.le_refl _)
  exact h.exists_runs

/-! ### Statements -/

/-- The routine that reads statements. -/
def Clause.routine : Clause → Routine
  | statement => .statement
  | statements => .rounds .endWord

theorem exists_runs_assignment (p : Parser) :
    ∃ vs, Runs .assignment p vs (assignment p).after := by
  obtain ⟨vs, value⟩ := exists_runs_expression
    ((identifier false p).after.expect .becomes .missingBecomes .assignment)
  exact ⟨_, .assignment value⟩

theorem ReadsStatement.exists_runs {clause : Clause} {ts : List Token} {ds : List Diagnostic}
    {ns : List Node} (h : ReadsStatement clause p ts ds ns q) :
    ∃ vs, Runs clause.routine p vs q := by
  induction h with
  | assignment hk sign value =>
    obtain ⟨vs, run⟩ := value.exists_runs
    rw [sign.eq_expect] at run
    exact ⟨_, .assigns hk (.assignment run)⟩
  | tooDeep hk hn => exact ⟨_, .block hk (.blockTooDeep hn)⟩
  | compound hk hn _ close ih =>
    obtain ⟨vs, body⟩ := ih
    rw [close.eq_expect]
    exact ⟨_, .block hk (.compound hn (.list body))⟩
  | empty hb hi => exact ⟨_, .empty hb hi⟩
  | finish hk => exact ⟨_, .finish hk.symm⟩
  | round hk _ separator _ ih ih' =>
    obtain ⟨vs, one⟩ := ih
    obtain ⟨ws, rest⟩ := ih'
    rw [separator.eq_separate] at rest
    exact ⟨_, .round (fun h => hk h.symm) one rest⟩

theorem exists_runs_statement (hp : p.Standard) :
    ∃ vs, Runs .statement p vs p.statement.after := by
  obtain ⟨_, _, h⟩ := reading_statement hp
  exact h.exists_runs

/-- The loop of a list ends for every terminator, as each of its rounds takes a token. -/
theorem exists_runs_rounds (t : TokenKind) (hp : p.Standard) :
    ∃ vs, Runs (.rounds t) p vs (Routine.outcome (.rounds t) p) := by
  obtain ⟨ns, q, hrounds, hq, -, heq⟩ := (advances_standard hp).loopEnds t
  rw [← funext statement_eq] at hrounds heq
  rw [Routine.outcome, heq]
  clear heq
  induction hrounds with
  | refl => exact ⟨_, .finish hq⟩
  | @round p _ _ he ht _ ih =>
    obtain ⟨_, _, one⟩ := reading_statement hp
    have hafter := one.effect.onward.trans (.separate t p.statement.after)
    obtain ⟨ws, rest⟩ := ih (standard_of_handlers hp hafter.handlers) hq
    obtain ⟨vs, run⟩ := exists_runs_statement hp
    exact ⟨_, .round (not_or.2 ⟨he, ht⟩) run rest⟩

theorem exists_runs_list (t : TokenKind) (cause : Cause) (component : Component)
    (hp : p.Standard) :
    ∃ vs, Runs (.list t cause component) p vs (Routine.outcome (.list t cause component) p) := by
  obtain ⟨vs, loop⟩ := exists_runs_rounds t hp
  exact ⟨_, .list loop⟩

theorem exists_runs_compound (hp : p.Standard) : ∃ vs, Runs .compound p vs p.compound.after := by
  rcases Nat.lt_or_ge p.nesting maxNesting with hn | hn
  · obtain ⟨vs, body⟩ := exists_runs_list (p := p.deeper.advance) .endWord .missingEnd .compound hp
    rw [compound_eq hp hn]
    exact ⟨_, .compound hn body⟩
  · rw [compound, compoundWith, nested_of_le hn]
    exact ⟨_, .blockTooDeep hn⟩

theorem ReadsProgram.exists_runs {ts : List Token} {ds : List Diagnostic} {ns : List Node}
    (h : ReadsProgram p ts ds ns q) : ∃ vs, Runs .program p vs q := by
  cases h with
  | nothing hk => exact ⟨_, .nothing hk⟩
  | block hk root period =>
    obtain ⟨vs, run⟩ := root.exists_runs
    rw [period.eq_expect]
    exact ⟨_, .program hk run⟩
  | noBlock hk hb period =>
    rw [period.eq_expect]
    exact ⟨_, .noBlock hk hb⟩

/-- **Every routine comes to its end by the rules**, whatever tokens are ahead. -/
theorem exists_runs (routine : Routine) (hp : p.Standard) :
    ∃ vs, Runs routine p vs (routine.outcome p) := by
  cases routine with
  | factor =>
    obtain ⟨_, _, h⟩ := reading_factorAt p.levelsLeft p rfl
    exact h.exists_runs
  | chain s => exact exists_runs_chain s p
  | links s => exact exists_runs_links s p
  | expression => exact exists_runs_expression p
  | assignment => exact exists_runs_assignment p
  | compound => exact exists_runs_compound hp
  | statement => exact exists_runs_statement hp
  | rounds t => exact exists_runs_rounds t hp
  | list t cause component => exact exists_runs_list t cause component hp
  | program =>
    obtain ⟨_, _, h⟩ := reading_program hp
    exact h.exists_runs

/-! ## How many calls there are -/

/-- What every call of a routine costs at most, at nine calls for each token that is ahead of it. An
assignment and a block take their first token, and a statement that is not empty is one of these. -/
def Routine.cost : Routine → Parser → Nat
  | .factor, p | .links _, p | .rounds _, p => 9 * p.cursor.count + 1
  | .list .., p | .program, p => 9 * p.cursor.count + 2
  | .chain .multiplicative, p => 9 * p.cursor.count + 3
  | .chain .additive, p => 9 * p.cursor.count + 5
  | .expression, p => 9 * p.cursor.count + 6
  | .compound, p => 9 * p.cursor.advance.count + 3
  | .assignment, p => 9 * p.cursor.advance.count + 7
  | .statement, p =>
    if p.kind = .beginWord ∨ p.kind = .identifier then 9 * p.cursor.advance.count + 8
    else 9 * p.cursor.count + 1

theorem count_advance (h : p.kind ≠ .endOfText) :
    p.cursor.count = p.cursor.advance.count + 1 := by
  rw [(Effect.advance h).count, Nat.add_comm]
  rfl

theorem count_advance_le (p : Parser) : p.cursor.advance.count ≤ p.cursor.count :=
  p.cursor.reaches_advance.count_le

theorem count_expect_le (p : Parser) (kind : TokenKind) (cause : Cause) (component : Component) :
    (p.expect kind cause component).cursor.count ≤ p.cursor.count :=
  (Onward.expect p kind cause component).reaches.count_le

theorem Strength.start_count_le (s : Strength) (p : Parser) :
    (s.start p).cursor.count ≤ p.cursor.count := by
  cases s with
  | multiplicative => exact Nat.le_refl _
  | additive =>
    simp only [start, afterSign]
    split
    · exact count_advance_le p
    · exact Nat.le_refl _

/-- A round is paid for by what it takes: the tokens of its statement, or else its separator. -/
theorem Runs.round_cost (one : Runs .statement p vs q) {t : TokenKind}
    (hk : ¬ (p.kind = .endOfText ∨ p.kind = t))
    (hcost : vs.length + 9 * q.cursor.count ≤ Routine.cost .statement p) :
    vs.length + 9 * (q.separate t).cursor.count + 1 ≤ 9 * p.cursor.count := by
  obtain ⟨he, ht⟩ := not_or.1 hk
  have hseparate := (Onward.separate t q).reaches.count_le
  have hadvance := count_advance he
  cases one with
  | block hb | assigns hb =>
    simp only [Routine.cost, hb, true_or, or_true, if_true] at hcost
    omega
  | empty _ hi =>
    have hpasses := (passes_separate hi he ht).count
    simp only [List.length_singleton]
    omega

/-- **The calls of a run are paid for by the tokens that it takes**. -/
theorem Runs.length_le {routine : Routine} (h : Runs routine p vs q) :
    vs.length + 9 * q.cursor.count ≤ routine.cost p := by
  induction h with
  | @identifier p hk =>
    rw [identifier_cursor]
    have hadvance := count_advance_le p
    simp only [Routine.cost, List.length_singleton]
    omega
  | @constant p | @tooDeep p =>
    have hadvance := count_advance_le p
    simp only [Routine.cost, List.length_singleton, advance_cursor, flag_cursor]
    omega
  | unexpected | stop | finish | nothing =>
    simp only [Routine.cost, List.length_singleton, flagUnexpected, flag_cursor]
    omega
  | @negation p q _ hk _ _ ih =>
    have hadvance := count_advance (p := p) (by simp [hk])
    simp only [Routine.cost, List.length_cons, advance_cursor, deeper_cursor, exitNesting_cursor]
      at ih ⊢
    omega
  | @parentheses p q _ hk _ _ ih =>
    have hadvance := count_advance (p := p) (by simp [hk])
    have hclose := count_expect_le q.exitNesting .rightParen .missingRightParen .expression
    simp only [Routine.cost, List.length_cons, advance_cursor, deeper_cursor, exitNesting_cursor]
      at ih hclose ⊢
    omega
  | @chain s p _ _ _ _ _ _ ih ih' =>
    have hstart := s.start_count_le p
    simp only [List.length_cons, List.cons_append, List.length_append]
    cases s <;> simp only [Routine.cost, Strength.between] at ih ih' ⊢ <;> omega
  | @link s p _ _ _ _ hk _ _ ih ih' =>
    obtain ⟨op, hop⟩ := Option.isSome_iff_exists.1 hk
    have hadvance := count_advance (ne_end_of_inExpression (inExpression_of_operator hop))
    simp only [List.length_cons, List.cons_append, List.length_append]
    cases s <;> simp only [Routine.cost, Strength.between, advance_cursor] at ih ih' ⊢ <;> omega
  | simple _ _ ih =>
    simp only [Routine.cost, List.length_cons] at ih ⊢
    omega
  | relation _ hk _ ih ih' =>
    obtain ⟨op, hop⟩ := Option.isSome_iff_exists.1 hk
    have hadvance := count_advance (ne_end_of_inExpression (inExpression_of_relational hop))
    simp only [Routine.cost, List.length_cons, List.cons_append, List.length_append,
      advance_cursor] at ih ih' ⊢
    omega
  | @assignment p _ _ _ ih =>
    have hsign := count_expect_le (PascalBlock.Parser.identifier false p).after .becomes
      .missingBecomes .assignment
    rw [identifier_cursor] at hsign
    simp only [Routine.cost, List.length_cons] at ih ⊢
    omega
  | @blockTooDeep p =>
    simp only [Routine.cost, List.length_singleton, advance_cursor, flag_cursor]
    omega
  | compound _ _ ih =>
    simp only [Routine.cost, List.length_cons, advance_cursor, deeper_cursor, exitNesting_cursor]
      at ih ⊢
    omega
  | block hk _ ih | assigns hk _ ih =>
    simp only [Routine.cost, List.length_cons, hk, true_or, or_true, if_true] at ih ⊢
    omega
  | empty hb hi =>
    simp only [Routine.cost, List.length_singleton, if_neg (not_or.2 ⟨hb, hi⟩)]
    omega
  | round hk one _ ih ih' =>
    have hround := one.round_cost hk ih
    simp only [Routine.cost, List.length_cons, List.cons_append, List.length_append] at ih' ⊢
    omega
  | @list t cause component _ q _ _ ih =>
    have hclose := count_expect_le q t cause component
    simp only [Routine.cost, List.length_cons] at ih ⊢
    omega
  | @program p q _ hk _ ih =>
    have hadvance := count_advance (p := p) (by simp [hk])
    have hperiod := count_expect_le q .dot .missingPeriod .program
    simp only [Routine.cost, List.length_cons, hk, true_or, if_true] at ih ⊢
    omega
  | @noBlock p =>
    have hperiod := count_expect_le (p.flagUnexpected .program) .dot .missingPeriod .program
    rw [show (p.flagUnexpected .program).cursor = p.cursor from rfl] at hperiod
    simp only [Routine.cost, List.length_singleton]
    omega

/-! ## Whole parses -/

theorem exists_runs_within (routine : Routine) (hp : p.Standard) :
    ∃ vs, Runs routine p vs (routine.outcome p) ∧ vs.length ≤ routine.cost p := by
  obtain ⟨vs, run⟩ := exists_runs routine hp
  exact ⟨vs, run, Nat.le_trans (Nat.le_add_right _ _) run.length_le⟩

theorem count_ofTokens_le (tokens : List Token) (file : String) :
    (Cursor.ofTokens tokens file).count ≤ tokens.length := by
  rw [Cursor.count_eq]
  exact (Cursor.ofTokens_prefix tokens file).length_le

/-- **Lists of statements make progress, and every parse ends**. -/
theorem parses_make_progress {table : StatementTable} (h : Advances table p.handlers)
    (terminator : TokenKind) (tokens : List Token) (file : String) :
    (∀ q : Parser, q.handlers = p.handlers → q.kind ≠ .endOfText → q.kind ≠ terminator →
      q.cursor.Passes (statementRound (statementIn table) terminator q).after.cursor) ∧
    LoopEnds (statementIn table) terminator p ∧
    (Advances knownStatements (ofTokens tokens file).withStatements.handlers ∧
      statement = statementIn knownStatements) ∧
    (∃ vs, Runs .program (ofTokens tokens file).withStatements vs (parse tokens file).after ∧
      vs.length ≤ 9 * tokens.length + 2) ∧
    ∃ vs, Runs .expression (ofTokens tokens file).withStatements vs
      (parseExpression tokens file).after ∧ vs.length ≤ 9 * tokens.length + 6 := by
  have hstandard := standard_withStatements tokens file
  have hcount : 9 * (ofTokens tokens file).withStatements.cursor.count ≤ 9 * tokens.length :=
    Nat.mul_le_mul_left 9 (count_ofTokens_le tokens file)
  obtain ⟨vs, program, hprogram⟩ := exists_runs_within .program hstandard
  obtain ⟨ws, expression, hexpression⟩ := exists_runs_within .expression hstandard
  exact ⟨fun q hq he ht => h.round_passes hq he ht, h.loopEnds terminator,
    ⟨advances_standard hstandard, funext statement_eq⟩,
    ⟨vs, program, Nat.le_trans hprogram (Nat.add_le_add_right hcount 2)⟩,
    ws, expression, Nat.le_trans hexpression (Nat.add_le_add_right hcount 6)⟩

/-- Names are statements, which are dropped. -/
def droppedNames : StatementTable := fun _ kind =>
  if kind = .identifier then some fun p => ⟨.leaf .noOp, p.advance⟩ else none

theorem advances_droppedNames : Advances droppedNames [] := by
  refine ⟨fun kind read h p _ => ?_, _, rfl, fun p _ hk => ?_⟩
  · unfold droppedNames at h
    split at h
    · rw [← Option.some.inj h]
      exact Onward.advance p
    · cases h
  · exact Cursor.passes_advance (by rw [show p.cursor.kind = .identifier from hk]; decide)

/-- The tokens of `begin ) x := NOT ; y`, where little is as it should be. -/
def scrambled : List Token :=
  [⟨.beginWord, "begin", none, 1, ⟨"", 0⟩, ⟨"", 5⟩⟩, ⟨.rightParen, ")", none, 1, ⟨"", 6⟩, ⟨"", 7⟩⟩,
    ⟨.identifier, "x", none, 1, ⟨"", 8⟩, ⟨"", 9⟩⟩, ⟨.becomes, ":=", none, 1, ⟨"", 10⟩, ⟨"", 12⟩⟩,
    ⟨.notWord, "NOT", none, 1, ⟨"", 13⟩, ⟨"", 16⟩⟩, ⟨.semicolon, ";", none, 1, ⟨"", 17⟩, ⟨"", 18⟩⟩,
    ⟨.identifier, "y", none, 1, ⟨"", 19⟩, ⟨"", 20⟩⟩]

/-- A list of dropped names comes to its end, whatever stands between them, and so does a parse of
the same tokens. -/
theorem droppedNames_make_progress :
    Advances droppedNames [] ∧
      LoopEnds (statementIn droppedNames) .dot (ofTokens scrambled "") ∧
      (∃ vs, Runs .program (ofTokens scrambled "").withStatements vs (parse scrambled "").after ∧
        vs.length ≤ 65) ∧
      ∃ vs, Runs .expression (ofTokens scrambled "").withStatements vs
        (parseExpression scrambled "").after ∧ vs.length ≤ 69 := by
  obtain ⟨-, hloop, -, hprogram, hexpression⟩ :=
    parses_make_progress (p := ofTokens scrambled "") advances_droppedNames .dot scrambled ""
  exact ⟨advances_droppedNames, hloop, hprogram, hexpression⟩

end PascalBlock.Parser
