import PascalBlock.Proofs.Parser.Calls

/-!
# Levels are given back

A routine opens at most one level by itself, calls another routine inside it, and gives it back on
every way out; a level too many is refused, which is flagged once, and drops the token. What one
call does to the levels is said in `leveled_refused`, `Leveled.opened` and `Leveled.call`; along a
run these add up (`Runs.leveled`). Main result: whatever tokens are ahead, every routine comes back
to the level it was called on, and so does every call that it makes (`levels_are_balanced`).
-/

namespace PascalBlock.Parser

variable {p q r : Parser} {vs ws : List Call} {cause : Cause} {component : Component}
  {routine : Routine}

/-! ## What was refused -/

/-- What was flagged so far as nested too deep. -/
def overflows (p : Parser) : List Diagnostic :=
  p.log.entries.toList.filter (·.error.cause = .nestingTooDeep)

theorem overflows_flag (p : Parser) (cause : Cause) (component : Component) :
    (p.flag cause component).overflows =
      p.overflows ++ if cause = .nestingTooDeep then [p.diagnostic cause component] else [] := by
  simp [overflows, flag, DiagnosticLog.flag, diagnostic, List.filter_cons]

/-- What a call flags when all levels are open already and it would open one more. -/
def Call.refusal? : Call → Option Diagnostic
  | ⟨.factor, p⟩ =>
    if maxNesting ≤ p.nesting ∧ (p.kind = .notWord ∨ p.kind = .leftParen) then
      some (p.diagnostic .nestingTooDeep .expression)
    else none
  | ⟨.compound, p⟩ =>
    if maxNesting ≤ p.nesting then some (p.diagnostic .nestingTooDeep .compound) else none
  | _ => none

theorem refusal?_factor_of_le (hk : opensLevel p.kind) (hn : maxNesting ≤ p.nesting) :
    Call.refusal? ⟨.factor, p⟩ = some (p.diagnostic .nestingTooDeep .expression) :=
  if_pos ⟨hn, hk⟩

theorem refusal?_factor_of_lt (hn : p.nesting < maxNesting) :
    Call.refusal? ⟨.factor, p⟩ = none := if_neg fun h => Nat.not_lt.2 h.1 hn

theorem refusal?_factor_of_not (hk : ¬ opensLevel p.kind) : Call.refusal? ⟨.factor, p⟩ = none :=
  if_neg fun h => hk h.2

theorem refusal?_compound_of_le (hn : maxNesting ≤ p.nesting) :
    Call.refusal? ⟨.compound, p⟩ = some (p.diagnostic .nestingTooDeep .compound) := if_pos hn

theorem refusal?_compound_of_lt (hn : p.nesting < maxNesting) :
    Call.refusal? ⟨.compound, p⟩ = none := if_neg (Nat.not_le.2 hn)

/-- A refused factor is absent; only its token is taken. -/
theorem factor_of_le (hk : opensLevel p.kind) (hn : maxNesting ≤ p.nesting) :
    p.factor = ⟨none, (p.flag .nestingTooDeep .expression).advance⟩ := by
  rw [factor, show p.levelsLeft = 0 from Nat.sub_eq_zero_of_le hn, factorAt, factorWith]
  rcases hk with hk | hk <;> simp only [hk, nested_of_le hn]

/-- A refused block is an empty statement; only its token is taken. -/
theorem compound_of_le (hn : maxNesting ≤ p.nesting) :
    p.compound = ⟨.leaf .noOp, (p.flag .nestingTooDeep .compound).advance⟩ := by
  rw [compound, compoundWith, nested_of_le hn]

/-! ## Between the calls -/

/-- On the way from `p` to `q` no level is opened or closed, and none is refused. -/
structure Quiet (p q : Parser) : Prop extends Onward p q where
  nesting : q.nesting = p.nesting
  overflows : q.overflows = p.overflows

namespace Quiet

theorem refl (p : Parser) : Quiet p p := ⟨.refl p, rfl, rfl⟩

theorem trans (h : Quiet p q) (h' : Quiet q r) : Quiet p r :=
  ⟨h.toOnward.trans h'.toOnward, h'.nesting.trans h.nesting, h'.overflows.trans h.overflows⟩

theorem advance (p : Parser) : Quiet p p.advance := ⟨.advance p, rfl, rfl⟩

theorem flag (p : Parser) (hc : cause ≠ .nestingTooDeep) : Quiet p (p.flag cause component) :=
  ⟨.flag .., rfl, by rw [overflows_flag, if_neg hc, List.append_nil]⟩

theorem flagUnexpected (p : Parser) (component : Component) :
    Quiet p (p.flagUnexpected component) := flag p (by simp)

theorem expect (p : Parser) (kind : TokenKind) (hc : cause ≠ .nestingTooDeep) :
    Quiet p (p.expect kind cause component) := by
  unfold Parser.expect
  split
  · exact advance p
  · exact flag p hc

theorem separate (t : TokenKind) (p : Parser) : Quiet p (p.separate t) := by
  unfold Parser.separate
  split
  · exact advance p
  split
  · exact flag p (by decide)
  split
  · exact refl p
  · exact (flagUnexpected p _).trans (advance _)

theorem start (s : Strength) (p : Parser) : Quiet p (s.start p) := by
  cases s with
  | multiplicative => exact refl p
  | additive =>
    simp only [Strength.start, afterSign]
    split
    · exact advance p
    · exact refl p

theorem identifier (known : Bool) (p : Parser) : Quiet p (identifier known p).after := by
  refine ⟨(Onward.advance p).trans (onward_identifier p known), identifier_nesting p known, ?_⟩
  unfold Parser.identifier resolve
  split
  · rfl
  · cases known with
    | false => rfl
    | true => exact (flag p (by simp)).overflows

end Quiet

/-! ## Along the calls -/

/-- The call was made on the way from `p` to `q`, on a level that may be open. If it was refused,
its token is behind `q`. -/
structure Inside (p q : Parser) (v : Call) : Prop where
  handlers : v.state.handlers = p.handlers
  nesting : v.state.nesting ≤ maxNesting
  count : v.state.cursor.count ≤ p.cursor.count
  dropped : v.refusal?.isSome → v.state.kind ≠ .endOfText →
    q.cursor.count < v.state.cursor.count

/-- What comes after a refused call is further on. -/
def Call.Before (v w : Call) : Prop :=
  v.refusal?.isSome → v.state.kind ≠ .endOfText → w.state.cursor.count < v.state.cursor.count

/-- With the calls `vs` the parser comes from `p` to `q`, back to the same level; each refusal is
flagged, and nothing else is flagged as too deep. -/
structure Leveled (p : Parser) (vs : List Call) (q : Parser) : Prop extends Onward p q where
  nesting : q.nesting = p.nesting
  overflows : q.overflows = p.overflows ++ vs.filterMap Call.refusal?
  inside : ∀ v ∈ vs, Inside p q v
  once : vs.Pairwise Call.Before

theorem Quiet.leveled (h : Quiet p q) : Leveled p [] q :=
  ⟨h.toOnward, h.nesting, by simp [h.overflows], List.forall_mem_nil _, .nil⟩

namespace Leveled

theorem count (h : Leveled p vs q) : q.cursor.count ≤ p.cursor.count := h.reaches.count_le

theorem append (h : Leveled p vs q) (h' : Leveled q ws r) : Leveled p (vs ++ ws) r where
  toOnward := h.toOnward.trans h'.toOnward
  nesting := h'.nesting.trans h.nesting
  overflows := by rw [h'.overflows, h.overflows, List.filterMap_append, List.append_assoc]
  inside := by
    refine List.forall_mem_append.2 ⟨fun v hv => ?_, fun w hw => ?_⟩
    · obtain ⟨hhandlers, hnesting, hcount, hdropped⟩ := h.inside v hv
      exact ⟨hhandlers, hnesting, hcount,
        fun hr hk => Nat.lt_of_le_of_lt h'.count (hdropped hr hk)⟩
    · obtain ⟨hhandlers, hnesting, hcount, hdropped⟩ := h'.inside w hw
      exact ⟨hhandlers.trans h.handlers, hnesting, Nat.le_trans hcount h.count, hdropped⟩
  once := by
    refine List.pairwise_append.2 ⟨h.once, h'.once, fun v hv w hw hr hk => ?_⟩
    exact Nat.lt_of_le_of_lt (h'.inside w hw).count ((h.inside v hv).dropped hr hk)

theorem quiet (h : Leveled p vs q) (h' : Quiet q r) : Leveled p vs r := by
  simpa using h.append h'.leveled

/-- The routine that makes these calls is itself called, and opens no level that is refused. -/
theorem call (h : Leveled p vs q) (hn : p.nesting ≤ maxNesting)
    (hr : Call.refusal? ⟨routine, p⟩ = none) : Leveled p (⟨routine, p⟩ :: vs) q where
  toOnward := h.toOnward
  nesting := h.nesting
  overflows := by rw [h.overflows, List.filterMap_cons_none hr]
  inside := by
    refine List.forall_mem_cons.2 ⟨⟨rfl, hn, Nat.le_refl _, fun hsome => ?_⟩, h.inside⟩
    rw [hr] at hsome
    cases hsome
  once := by
    refine List.pairwise_cons.2 ⟨fun w _ hsome => ?_, h.once⟩
    rw [hr] at hsome
    cases hsome

/-- A level is opened for the calls and given back behind them. -/
theorem opened (h : Leveled p.deeper.advance vs q) : Leveled p vs q.exitNesting where
  reaches := (Cursor.reaches_advance _).trans h.reaches
  handlers := h.handlers
  nesting := by rw [exitNesting_nesting, h.nesting, advance_nesting, deeper_nesting]; rfl
  overflows := h.overflows
  inside v hv := by
    obtain ⟨hhandlers, hnesting, hcount, hdropped⟩ := h.inside v hv
    exact ⟨hhandlers, hnesting, Nat.le_trans hcount (count_advance_le p), hdropped⟩
  once := h.once

end Leveled

/-- A refused call drops its token. -/
theorem leveled_refused (hn : p.nesting ≤ maxNesting)
    (hr : Call.refusal? ⟨routine, p⟩ = some (p.diagnostic .nestingTooDeep component)) :
    Leveled p [⟨routine, p⟩] (p.flag .nestingTooDeep component).advance where
  toOnward := (Onward.flag ..).trans (.advance _)
  nesting := rfl
  overflows := by
    rw [List.filterMap_cons_some hr, List.filterMap_nil]
    exact overflows_flag ..
  inside := by
    refine List.forall_mem_singleton.2 ⟨rfl, hn, Nat.le_refl _, fun _ hk => ?_⟩
    exact Nat.lt_of_lt_of_eq (Nat.lt_succ_self _) (count_advance hk).symm
  once := List.pairwise_singleton ..

theorem not_opensLevel_of_constant {kind : TokenKind} (hk : (constantKind? kind).isSome) :
    ¬ opensLevel kind := by
  rintro (rfl | rfl) <;> cases hk

/-- The cause that a list was given for a missing terminator. -/
def Routine.cause? : Routine → Option Cause
  | .list _ cause _ => some cause
  | _ => none

theorem Strength.cause?_between (s : Strength) : s.between.cause? = none := by cases s <;> rfl

/-- **A run gives back every level that it opens**. -/
theorem Runs.leveled (h : Runs routine p vs q) (hn : p.nesting ≤ maxNesting)
    (hc : routine.cause? ≠ some .nestingTooDeep) : Leveled p vs q := by
  induction h with
  | @identifier p hk =>
    have hopens : ¬ opensLevel p.kind := by rw [hk]; rintro (h | h) <;> cases h
    exact (Quiet.identifier true p).leveled.call hn (refusal?_factor_of_not hopens)
  | constant hk =>
    exact (Quiet.advance _).leveled.call hn
      (refusal?_factor_of_not (not_opensLevel_of_constant hk))
  | tooDeep hk hle => exact leveled_refused hn (refusal?_factor_of_le hk hle)
  | unexpected hk =>
    exact (Quiet.flagUnexpected _ _).leveled.call hn
      (refusal?_factor_of_not fun h => hk (.inr (.inr h)))
  | negation _ hlt _ ih =>
    exact (ih hlt (by decide)).opened.call hn (refusal?_factor_of_lt hlt)
  | parentheses _ hlt _ ih =>
    exact ((ih hlt (by decide)).opened.quiet (Quiet.expect _ _ (by decide))).call hn
      (refusal?_factor_of_lt hlt)
  | @chain s p q _ _ _ _ _ ih ih' =>
    have hstart := Quiet.start s p
    have hfirst := hstart.leveled.append
      (ih (hstart.nesting.symm ▸ hn) (by rw [s.cause?_between]; decide))
    exact (hfirst.append (ih' (hfirst.nesting.symm ▸ hn) (by simp [Routine.cause?]))).call hn rfl
  | stop => exact (Quiet.refl _).leveled.call hn rfl
  | @link s p _ _ _ _ _ _ _ ih ih' =>
    have hright := (Quiet.advance p).leveled.append (ih hn (by rw [s.cause?_between]; decide))
    exact (hright.append (ih' (hright.nesting.symm ▸ hn) (by simp [Routine.cause?]))).call hn rfl
  | simple _ _ ih => exact (ih hn (by decide)).call hn rfl
  | relation _ _ _ ih ih' =>
    have hleft := (ih hn (by decide)).quiet (Quiet.advance _)
    exact (hleft.append (ih' (hleft.nesting.symm ▸ hn) (by decide))).call hn rfl
  | @assignment p _ _ _ ih =>
    have hsign : Quiet p ((PascalBlock.Parser.identifier false p).after.expect .becomes
        .missingBecomes .assignment) :=
      (Quiet.identifier false p).trans (Quiet.expect _ _ (by decide))
    exact (hsign.leveled.append (ih (hsign.nesting.symm ▸ hn) (by decide))).call hn rfl
  | blockTooDeep hle => exact leveled_refused hn (refusal?_compound_of_le hle)
  | compound hlt _ ih =>
    exact (ih hlt (by decide)).opened.call hn (refusal?_compound_of_lt hlt)
  | block _ _ ih | assigns _ _ ih => exact (ih hn (by decide)).call hn rfl
  | empty | finish | nothing => exact (Quiet.refl _).leveled.call hn rfl
  | @round t _ _ _ _ _ _ _ _ ih ih' =>
    have hone := (ih hn (by decide)).quiet (Quiet.separate t _)
    exact (hone.append (ih' (hone.nesting.symm ▸ hn) (by simp [Routine.cause?]))).call hn rfl
  | list _ ih =>
    have hcause := fun h => hc (congrArg some h)
    exact ((ih hn (by simp [Routine.cause?])).quiet (Quiet.expect _ _ hcause)).call hn rfl
  | program _ _ ih =>
    exact ((ih hn (by decide)).quiet (Quiet.expect _ _ (by decide))).call hn rfl
  | noBlock =>
    exact ((Quiet.flagUnexpected _ _).trans (Quiet.expect _ _ (by decide))).leveled.call hn rfl

/-- Within a run, blocks are only called where one begins. -/
theorem Runs.blocks (h : Runs routine p vs q) :
    ∀ v ∈ vs, v.routine = .compound → v.state.kind = .beginWord ∨ v = ⟨routine, p⟩ := by
  induction h with
  | @chain s | @link s => cases s <;> grind [Strength.between]
  | _ => grind

/-! ## Whole runs -/

/-- What a list flags of itself when a missing terminator is to count as too deep. -/
def Routine.unclosed : Routine → Parser → List Diagnostic
  | .list t cause component, p =>
    let q := Routine.outcome (.rounds t) p
    if q.kind ≠ t ∧ cause = .nestingTooDeep then [q.diagnostic cause component] else []
  | _, _ => []

/-- The call takes its token and builds nothing but an empty statement for a block. -/
def Call.Drops : Call → Prop
  | ⟨.factor, p⟩ => p.factor = ⟨none, (p.flag .nestingTooDeep .expression).advance⟩
  | ⟨.compound, p⟩ => p.compound = ⟨.leaf .noOp, (p.flag .nestingTooDeep .compound).advance⟩
  | _ => False

theorem Call.drops_of_refusal? {v : Call} (h : v.refusal?.isSome) : v.Drops := by
  obtain ⟨routine, p⟩ := v
  cases routine with
  | factor =>
    by_cases hr : maxNesting ≤ p.nesting ∧ opensLevel p.kind
    · exact factor_of_le hr.2 hr.1
    · rw [show Call.refusal? ⟨.factor, p⟩ = none from if_neg hr] at h
      cases h
  | compound =>
    rcases Nat.lt_or_ge p.nesting maxNesting with hn | hn
    · rw [refusal?_compound_of_lt hn] at h
      cases h
    · exact compound_of_le hn
  | _ => cases h

/-- The routine comes back to its level, and so do the calls that it makes, which stay within the
levels there are. What is flagged as too deep are the refused calls, each of them once, and a
missing terminator that is to count as that. Refused calls drop their tokens, each one of its
own. -/
structure KeepsLevels (routine : Routine) (p : Parser) (vs : List Call) : Prop where
  nesting : (routine.outcome p).nesting = p.nesting
  within : ∀ v ∈ vs, v.state.nesting ≤ maxNesting
  returns : ∀ v ∈ vs, (v.routine.outcome v.state).nesting = v.state.nesting
  flagged : (routine.outcome p).overflows =
    p.overflows ++ vs.filterMap Call.refusal? ++ routine.unclosed p
  drops : ∀ v ∈ vs, v.refusal?.isSome → v.Drops
  blocks : ∀ v ∈ vs, v.routine = .compound → v.state.kind = .beginWord ∨ v = ⟨routine, p⟩
  once : vs.Pairwise Call.Before

/-- A list may flag its missing terminator behind what its calls have flagged. -/
theorem Runs.exists_leveled (h : Runs routine p vs q) (hp : p.Standard)
    (hn : p.nesting ≤ maxNesting) : ∃ r, Leveled p vs r ∧ q.nesting = r.nesting ∧
      q.overflows = r.overflows ++ routine.unclosed p := by
  cases routine with
  | list t cause component =>
    cases h with
    | list loop =>
      obtain ⟨_, loop'⟩ := exists_runs_rounds t hp
      obtain ⟨-, rfl⟩ := loop.unique loop'
      refine ⟨_, (loop.leveled hn (by simp [Routine.cause?])).call hn rfl, ?_⟩
      simp only [expect, Routine.unclosed]
      split
      · next hk => exact ⟨rfl, by simp [hk, overflows, Parser.advance]⟩
      · next hk => exact ⟨rfl, by simp [hk, overflows_flag]⟩
  | _ => exact ⟨q, h.leveled hn (by simp [Routine.cause?]), rfl, (List.append_nil _).symm⟩

theorem outcome_nesting (hp : p.Standard) (hn : p.nesting ≤ maxNesting) (routine : Routine) :
    (routine.outcome p).nesting = p.nesting := by
  obtain ⟨_, run⟩ := exists_runs routine hp
  obtain ⟨r, hleveled, hnesting, -⟩ := run.exists_leveled hp hn
  exact hnesting.trans hleveled.nesting

/-- **The level a routine is called on is the level it comes back to**, whatever tokens are ahead. A
level too many is flagged once, and its token is dropped. -/
theorem levels_are_balanced (hp : p.Standard) (hn : p.nesting ≤ maxNesting) (routine : Routine) :
    ∃ vs, Runs routine p vs (routine.outcome p) ∧ KeepsLevels routine p vs := by
  obtain ⟨vs, run⟩ := exists_runs routine hp
  obtain ⟨r, hleveled, -, hoverflows⟩ := run.exists_leveled hp hn
  refine ⟨vs, run, outcome_nesting hp hn routine, fun v hv => (hleveled.inside v hv).nesting,
    fun v hv => ?_, ?_, fun v _ hr => Call.drops_of_refusal? hr, run.blocks, hleveled.once⟩
  · obtain ⟨hhandlers, hnesting, -, -⟩ := hleveled.inside v hv
    exact outcome_nesting (standard_of_handlers hp hhandlers) hnesting v.routine
  · rw [hoverflows, hleveled.overflows]

/-- In front of `NOT NOT x` with one level left. -/
def doubleNot : Parser :=
  { (ofTokens [⟨.notWord, "NOT", none, 1, ⟨"", 0⟩, ⟨"", 3⟩⟩,
      ⟨.notWord, "NOT", none, 1, ⟨"", 4⟩, ⟨"", 7⟩⟩,
      ⟨.identifier, "x", none, 1, ⟨"", 8⟩, ⟨"", 9⟩⟩] "").withStatements with
    nesting := maxNesting - 1 }

/-- The second `NOT` is refused and dropped. -/
theorem doubleNot_is_balanced :
    (doubleNot.Standard ∧ doubleNot.nesting ≤ maxNesting) ∧
      (∃ vs, Runs .expression doubleNot vs doubleNot.expression.after ∧
        KeepsLevels .expression doubleNot vs) ∧
      doubleNot.expression.after.overflows.map (·.token.start) = [⟨"", 4⟩] := by
  have hstandard : doubleNot.Standard := standard_withStatements _ _
  have hnesting : doubleNot.nesting ≤ maxNesting := by decide
  exact ⟨⟨hstandard, hnesting⟩, levels_are_balanced hstandard hnesting .expression, by
    decide +kernel⟩

end PascalBlock.Parser
