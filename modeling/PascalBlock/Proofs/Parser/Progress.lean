import PascalBlock.Proofs.Parser.Containment

/-!
# Lists of statements make progress

A round of a list of statements may take nothing with its statement, or nothing with its separator,
but never nothing with both. That does not depend on what the statements are: it is enough that none
of them moves the cursor back and that one which starts with an identifier takes it (`Advances`). So
the loop comes to its end in at most as many rounds as there are tokens ahead, and the fuel that
bounds it is never used up. Blocks and assignments are such statements (`advances_standard`).
-/

namespace PascalBlock

/-! ## Further on in the same tokens -/

namespace Cursor

/-- The cursor `d` is where `c` is, or further on in the same tokens. -/
structure Reaches (c d : Cursor) : Prop where
  ahead : d.ahead <:+ c.ahead
  last : d.last = c.last

/-- The cursor `d` is further on than `c` in the same tokens. -/
structure Passes (c d : Cursor) : Prop extends Reaches c d where
  count : d.count < c.count

variable {c d e : Cursor}

theorem Reaches.refl (c : Cursor) : c.Reaches c := ⟨List.suffix_rfl, rfl⟩

theorem Reaches.trans (h : c.Reaches d) (h' : d.Reaches e) : c.Reaches e :=
  ⟨h'.ahead.trans h.ahead, h'.last.trans h.last⟩

theorem Reaches.count_le (h : c.Reaches d) : d.count ≤ c.count := by
  rw [c.count_eq, d.count_eq]
  exact h.ahead.length_le

theorem Passes.trans_reaches (h : c.Passes d) (h' : d.Reaches e) : c.Passes e :=
  ⟨h.toReaches.trans h', Nat.lt_of_le_of_lt h'.count_le h.count⟩

/-- What is reached without being passed is the same place. -/
theorem Reaches.eq_or_passes (h : c.Reaches d) : d = c ∨ c.Passes d := by
  rcases Nat.lt_or_ge d.count c.count with hlt | hge
  · exact .inr ⟨h, hlt⟩
  · rw [c.count_eq, d.count_eq] at hge
    exact .inl (eq_of_ahead (h.ahead.eq_of_length_le hge) h.last)

theorem reaches_advance (c : Cursor) : c.Reaches c.advance := ⟨List.tail_suffix _, rfl⟩

theorem passes_advance (h : c.kind ≠ .endOfText) : c.Passes c.advance := by
  refine ⟨reaches_advance c, ?_⟩
  rw [c.count_eq, c.advance.count_eq, ahead_eq_cons h]
  exact Nat.lt_succ_self _

end Cursor

namespace Parser

variable {p q r : Parser} {ts : List Token} {ds : List Diagnostic} {terminator : TokenKind}

/-- From `p` to `q` the cursor does not move back, and the same statements stay known. -/
structure Onward (p q : Parser) : Prop where
  reaches : p.cursor.Reaches q.cursor
  handlers : q.handlers = p.handlers

namespace Onward

theorem refl (p : Parser) : Onward p p := ⟨.refl _, rfl⟩

theorem trans (h : Onward p q) (h' : Onward q r) : Onward p r :=
  ⟨h.reaches.trans h'.reaches, h'.handlers.trans h.handlers⟩

theorem advance (p : Parser) : Onward p p.advance := ⟨Cursor.reaches_advance _, rfl⟩

theorem flag (p : Parser) (cause : Cause) (component : Component) :
    Onward p (p.flag cause component) := ⟨.refl _, rfl⟩

theorem expect (p : Parser) (kind : TokenKind) (cause : Cause) (component : Component) :
    Onward p (p.expect kind cause component) := by
  unfold Parser.expect
  split
  · exact advance p
  · exact flag p cause component

theorem separate (terminator : TokenKind) (p : Parser) : Onward p (p.separate terminator) := by
  unfold Parser.separate
  split
  · exact advance p
  split
  · exact flag ..
  split
  · exact refl p
  · exact (flag ..).trans (advance _)

end Onward

theorem Effect.onward (h : Effect p ts ds q) : Onward p q :=
  ⟨⟨⟨ts, h.ahead.symm⟩, h.last⟩, h.handlers⟩

/-- Whatever cannot stay behind a statement is taken. -/
theorem passes_separate (hi : p.kind ≠ .identifier) (he : p.kind ≠ .endOfText)
    (ht : p.kind ≠ terminator) : p.cursor.Passes (p.separate terminator).cursor := by
  rw [separate, if_neg hi, if_neg (not_or.2 ⟨ht, he⟩)]
  split <;> exact Cursor.passes_advance he

/-! ## Tables of statements -/

/-- What reads a statement that starts with a token of some kind, when certain statements are
known. -/
abbrev StatementTable := List (TokenKind × Handler) → TokenKind → Option (Parser → Parsed Node)

/-- A statement, read by what the table has for the statements that are known now. -/
def statementIn (table : StatementTable) (p : Parser) : Parsed Node :=
  statementBy (table p.handlers) p

/-- While certain statements are known, none of them moves the cursor back or changes which are
known, and one that starts with an identifier takes it. -/
structure Advances (table : StatementTable) (handlers : List (TokenKind × Handler)) : Prop where
  onward : ∀ kind read, table handlers kind = some read →
    ∀ p : Parser, p.handlers = handlers → Onward p (read p).after
  identifier : ∃ read, table handlers .identifier = some read ∧
    ∀ p : Parser, p.handlers = handlers → p.kind = .identifier →
      p.cursor.Passes (read p).after.cursor

section
variable {table : StatementTable} {handlers : List (TokenKind × Handler)}

theorem statementIn_after (table : StatementTable) (p : Parser) :
    (statementIn table p).after = (((table p.handlers p.kind).getD emptyStatement) p).after := rfl

theorem Advances.statement_onward (h : Advances table handlers) (hp : p.handlers = handlers) :
    Onward p (statementIn table p).after := by
  rw [statementIn_after, hp]
  cases hread : table handlers p.kind with
  | none => exact .refl _
  | some read => exact h.onward _ read hread p hp

theorem Advances.statement_passes (h : Advances table handlers) (hp : p.handlers = handlers)
    (hk : p.kind = .identifier) : p.cursor.Passes (statementIn table p).after.cursor := by
  obtain ⟨read, hread, hpasses⟩ := h.identifier
  rw [statementIn_after, hp, hk, hread]
  exact hpasses p hp hk

theorem Advances.round_onward (h : Advances table handlers) (hp : p.handlers = handlers) :
    Onward p (statementRound (statementIn table) terminator p).after :=
  (h.statement_onward hp).trans (.separate _ _)

/-- **Every round of a list makes progress**. -/
theorem Advances.round_passes (h : Advances table handlers) (hp : p.handlers = handlers)
    (he : p.kind ≠ .endOfText) (ht : p.kind ≠ terminator) :
    p.cursor.Passes (statementRound (statementIn table) terminator p).after.cursor := by
  have hseparate := (Onward.separate terminator (statementIn table p).after).reaches
  by_cases hi : p.kind = .identifier
  · exact (h.statement_passes hp hi).trans_reaches hseparate
  · rcases (h.statement_onward hp).reaches.eq_or_passes with hsame | hpasses
    · -- the statement took nothing, so the separator is looked for at the same token
      have hkind : (statementIn table p).after.kind = p.kind := congrArg Cursor.kind hsame
      rw [← hsame]
      exact passes_separate (by rwa [hkind]) (by rwa [hkind]) (by rwa [hkind])
    · exact hpasses.trans_reaches hseparate

/-! ## The loop ends -/

/-- What the rounds read from `p` on is what the loop gives, with fuel for as many. -/
theorem Rounds.statementRounds_eq {statement : Parser → Parsed Node} {ns : List Node}
    (h : Rounds statement terminator p ns q) (hq : q.kind = .endOfText ∨ q.kind = terminator) :
    ∀ {fuel}, ns.length ≤ fuel → statementRounds statement terminator fuel p = ⟨ns, q⟩ := by
  induction h with
  | refl p =>
    intro fuel _
    cases fuel with
    | zero => rfl
    | succ fuel => rw [statementRounds, if_pos hq]
  | round he ht _ ih =>
    intro fuel hfuel
    cases fuel with
    | zero => exact absurd hfuel (Nat.not_succ_le_zero _)
    | succ fuel =>
      simp only [statementRounds, if_neg (not_or.2 ⟨he, ht⟩),
        ih hq (Nat.le_of_succ_le_succ hfuel)]

/-- The loop of a list comes from `p` to its end, in as many rounds as there are tokens ahead at
most, and the bound on its rounds does not cut it off. -/
def LoopEnds (statement : Parser → Parsed Node) (terminator : TokenKind) (p : Parser) : Prop :=
  ∃ ns q, Rounds statement terminator p ns q ∧ (q.kind = .endOfText ∨ q.kind = terminator) ∧
    ns.length ≤ p.cursor.ahead.length ∧
    statementRounds statement terminator p.cursor.count p = ⟨ns, q⟩

theorem Advances.exists_rounds (h : Advances table handlers) (terminator : TokenKind)
    (hp : p.handlers = handlers) :
    ∃ ns q, Rounds (statementIn table) terminator p ns q ∧
      (q.kind = .endOfText ∨ q.kind = terminator) ∧ ns.length ≤ p.cursor.count := by
  induction hcount : p.cursor.count using Nat.strongRecOn generalizing p with
  | ind n ih =>
    subst hcount
    by_cases hk : p.kind = .endOfText ∨ p.kind = terminator
    · exact ⟨[], p, .refl p, hk, Nat.zero_le _⟩
    · obtain ⟨he, ht⟩ := not_or.1 hk
      have hpasses := h.round_passes hp he ht
      obtain ⟨ns, q, hrounds, hq, hlength⟩ := ih _ hpasses.count
        ((h.round_onward hp).handlers.trans hp) rfl
      refine ⟨_, q, .round he ht hrounds, hq, ?_⟩
      rw [List.length_cons]
      exact Nat.lt_of_le_of_lt hlength hpasses.count

theorem Advances.loopEnds (h : Advances table p.handlers) (terminator : TokenKind) :
    LoopEnds (statementIn table) terminator p := by
  obtain ⟨ns, q, hrounds, hq, hlength⟩ := h.exists_rounds terminator rfl
  exact ⟨ns, q, hrounds, hq, p.cursor.count_eq ▸ hlength, hrounds.statementRounds_eq hq hlength⟩

end

/-! ## Blocks and assignments -/

/-- The statements that a parse can know; `compound` reads its blocks. -/
def knownStatements : StatementTable := fun handlers kind =>
  (handlers.lookup kind).map (runHandler compound)

/-- How many levels may still be opened matters only where a block is opened. -/
theorem statement_eq (p : Parser) : p.statement = statementIn knownStatements p := by
  have hblock : ∀ block : Parser → Parsed Node, block p = compound p →
      statementWith block p = statementIn knownStatements p := by
    intro block h
    simp only [statementWith, statementIn, statementBy, knownStatements]
    cases p.handlers.lookup p.kind with
    | none => rfl
    | some handler => cases handler <;> simp [runHandler, h]
  unfold statement
  cases hl : p.levelsLeft with
  | zero =>
    refine hblock _ ?_
    have hn : maxNesting ≤ p.nesting := Nat.sub_eq_zero_iff_le.1 hl
    rw [compound, compoundWith, compoundWith, nested_of_le hn, nested_of_le hn]
  | succ levels =>
    refine hblock _ ?_
    rw [compound, hl, Nat.add_sub_cancel]

/-- A parse knows how to read blocks and assignments, and nothing else. -/
theorem knownStatements_standard (hp : p.Standard) {kind : TokenKind}
    {read : Parser → Parsed Node} (h : knownStatements p.handlers kind = some read) :
    read = compound ∨ read = assignment := by
  simp only [knownStatements, hp kind] at h
  split at h
  · exact .inl (Option.some.inj h).symm
  split at h
  · exact .inr (Option.some.inj h).symm
  · cases h

theorem standard_of_handlers (hp : p.Standard) (h : q.handlers = p.handlers) : q.Standard := by
  rw [Standard, h]; exact hp

theorem onward_expression (p : Parser) : Onward p p.expression.after := by
  obtain ⟨_, _, h⟩ := reading_expression p
  exact h.effect.onward

theorem onward_identifier (p : Parser) (known : Bool) :
    Onward p.advance (identifier known p).after := by
  rw [identifier_after]
  exact ⟨.refl _, rfl⟩

/-- An assignment takes its first token, whatever that is. -/
theorem onward_assignment (p : Parser) : Onward p.advance (assignment p).after :=
  (onward_identifier p false).trans ((Onward.expect ..).trans (onward_expression _))

/-- A block takes its first token, whatever that is. -/
theorem onward_compound (hp : p.Standard) : Onward p.advance p.compound.after := by
  rcases Nat.lt_or_ge p.nesting maxNesting with hn | hn
  · obtain ⟨_, _, h⟩ := reading_statementRounds_statement (p := p.deeper.advance) hp
    obtain ⟨hreaches, hhandlers⟩ := h.effect.onward.trans (Onward.expect ..)
    rw [compound_eq hp hn]
    exact ⟨hreaches, hhandlers⟩
  · rw [compound, compoundWith, nested_of_le hn]
    exact ⟨.refl _, rfl⟩

/-- The statements that a parse knows advance. -/
theorem advances_standard (hp : p.Standard) : Advances knownStatements p.handlers where
  onward kind read hread q hq := by
    refine (Onward.advance q).trans ?_
    rcases knownStatements_standard hp hread with rfl | rfl
    · exact onward_compound (standard_of_handlers hp hq)
    · exact onward_assignment q
  identifier := by
    refine ⟨assignment, by simp [knownStatements, hp .identifier, runHandler], ?_⟩
    intro q _ hk
    have hend : q.kind ≠ .endOfText := by rw [hk]; decide
    exact (Cursor.passes_advance hend).trans_reaches (onward_assignment q).reaches

end Parser

end PascalBlock
