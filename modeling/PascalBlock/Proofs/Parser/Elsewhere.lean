import PascalBlock.Proofs.Parser.Acceptance
import PascalBlock.Proofs.Parser.Names
import PascalBlock.Proofs.Parser.Notes

/-!
# Clean readings in front of other tokens

A reading that flags nothing but unknown names depends on the tokens that it takes and, of what
comes behind them, on the next token alone; an expression even looks only whether that token is an
operator. In front of other tokens, and whatever was flagged before, such a reading goes the same
way (`ReadsOperand.elsewhere`, `ReadsStatement.elsewhere`).
-/

namespace PascalBlock.Parser

variable {p p' q q' : Parser} {ts rest rest' : List Token} {ds : List Diagnostic} {ns : List Node}

/-! ## States alike -/

theorem diagnostic_congr (hcurrent : p'.current = p.current) (cause : Cause)
    (component : Component) : p'.diagnostic cause component = p.diagnostic cause component := by
  rw [diagnostic, diagnostic, hcurrent]

/-- States that have all in common but the tokens ahead and what was flagged. -/
structure Alike (p p' : Parser) : Prop where
  last : p'.cursor.last = p.cursor.last
  handlers : p'.handlers = p.handlers
  scopes : p'.scopes = p.scopes
  nesting : p'.nesting = p.nesting

namespace Alike

theorem advance (h : Alike p p') : Alike p.advance p'.advance :=
  ⟨h.last, h.handlers, h.scopes, h.nesting⟩

theorem deeper (h : Alike p p') : Alike p.deeper p'.deeper :=
  ⟨h.last, h.handlers, h.scopes, congrArg (· + 1) h.nesting⟩

theorem exitNesting (h : Alike p p') : Alike p.exitNesting p'.exitNesting :=
  ⟨h.last, h.handlers, h.scopes, congrArg (· - 1) h.nesting⟩

/-- What is flagged makes no difference. -/
theorem flag (h : Alike p p') (cause : Cause) (component : Component) :
    Alike p (p'.flag cause component) :=
  ⟨h.last, h.handlers, h.scopes, h.nesting⟩

theorem nesting_lt (h : Alike p p') (hn : p.nesting < maxNesting) : p'.nesting < maxNesting :=
  h.nesting ▸ hn

theorem current (h : Alike p p') (ha : p'.cursor.ahead.head? = p.cursor.ahead.head?) :
    p'.current = p.current := by
  simp only [Parser.current, Cursor.current, List.headD_eq_head?_getD, ha, h.last]

theorem unknownName (h : Alike p p') (hcurrent : p'.current = p.current) :
    p'.unknownName = p.unknownName := by
  simp only [Parser.unknownName, h.scopes, hcurrent, diagnostic_congr hcurrent]

/-- A name is read alike. -/
theorem identifier (h : Alike p p') (hcurrent : p'.current = p.current) (known : Bool) :
    (identifier known p').value = (identifier known p).value ∧
      Alike (identifier known p).after (identifier known p').after := by
  refine ⟨?_, ?_, ?_, ?_, ?_⟩
  · rw [identifier_entry, identifier_entry, h.scopes, hcurrent]
  · rw [identifier_cursor, identifier_cursor]
    exact h.last
  · rw [identifier_after, identifier_after p]
    exact h.handlers
  · rw [identifier_scopes, identifier_scopes, h.scopes, hcurrent]
  · rw [identifier_nesting, identifier_nesting, h.nesting]

end Alike

theorem Expects.elsewhere {kind : TokenKind} {cause : Cause} {component : Component}
    (h : Expects kind cause component p ts ds q) (hc : Clean ds)
    (hcause : ∀ name, cause ≠ .identifierUndefined name) (hp : Alike p p')
    (ha : p'.cursor.ahead = ts ++ rest) :
    ∃ q', Expects kind cause component p' ts ds q' ∧ Alike q q' ∧ q'.cursor.ahead = rest := by
  cases h with
  | found hk =>
    have hcurrent : p'.current = p.current := current_eq ha
    have hk' : p'.kind = kind := by rw [← current_kind, hcurrent, current_kind, hk]
    rw [← hcurrent] at ha ⊢
    exact ⟨_, .found hk', hp.advance, advance_ahead ha⟩
  | missing => simp [Parser.diagnostic, hcause] at hc

/-! ## What comes next -/

/-- Behind a phrase comes the same token as before, or none that an expression goes on with. -/
def Continues (rest rest' : List Token) : Prop :=
  rest'.head? = rest.head? ∨ ∀ prec, Ends prec rest'

theorem Continues.append (h : Continues rest rest') (ts : List Token) :
    Continues (ts ++ rest) (ts ++ rest') := by
  cases ts with
  | nil => exact h
  | cons t ts => exact .inl rfl

theorem Continues.operator?_eq_none {s : Strength} (h : Continues p.cursor.ahead p'.cursor.ahead)
    (hp : Alike p p') (hk : s.operator? p.kind = none) : s.operator? p'.kind = none := by
  rcases h with h | h
  · rwa [← current_kind, hp.current h]
  · exact Parser.operator?_eq_none (h s.precedence) rfl

theorem Continues.relational?_eq_none (h : Continues p.cursor.ahead p'.cursor.ahead)
    (hp : Alike p p') (hk : p.kind.relational? = none) : p'.kind.relational? = none := by
  rcases h with h | h
  · rwa [← current_kind, hp.current h]
  · exact Parser.relational?_eq_none (h .relational) rfl

/-! ## Expressions -/

/-- Only behind an operand may nothing be taken. -/
def Phrase.takesToken : Phrase → Prop
  | .links .. => False
  | _ => True

/-- A clean reading takes a token, or stops behind an operand. -/
theorem ReadsOperand.ne_nil {phrase : Phrase} (h : ReadsOperand phrase p ts ds ns q)
    (hc : Clean ds) (hphrase : phrase.takesToken) : ts ≠ [] := by
  induction h with
  | unexpected => simp [diagnostic] at hc
  | unsigned _ _ _ ih | simple _ _ ih => exact ih hc trivial
  | @chain s _ _ _ _ _ _ _ _ _ _ _ ih =>
    rw [clean_append] at hc
    have hfirst := ih hc.1 (by cases s <;> trivial)
    simp [hfirst]
  | stop | link => exact absurd hphrase id
  | _ => simp

/-- Where the tokens that are taken come first, the current token is the same. -/
theorem same_token (ha : p'.cursor.ahead = p.current :: rest) :
    p'.current = p.current ∧ p'.kind = p.kind := by
  have hcurrent : p'.current = p.current := current_eq ha
  exact ⟨hcurrent, by rw [← current_kind, hcurrent, current_kind]⟩

/-- **A clean reading of an expression goes the same way elsewhere**. -/
theorem ReadsOperand.elsewhere {phrase : Phrase} (h : ReadsOperand phrase p ts ds ns q)
    (hc : Clean ds) : ∀ {p' rest}, Alike p p' → p'.cursor.ahead = ts ++ rest →
      Continues q.cursor.ahead rest → ∃ q', ReadsOperand phrase p' ts ds ns q' ∧ Alike q q' := by
  induction h with
  | @identifier p hk =>
    intro p' rest hp ha _
    obtain ⟨hcurrent, hkind⟩ := same_token ha
    obtain ⟨hvalue, hafter⟩ := hp.identifier hcurrent true
    have hread := ReadsOperand.identifier (hkind.trans hk)
    rw [hcurrent, hp.unknownName hcurrent, hvalue] at hread
    exact ⟨_, hread, hafter⟩
  | @constant p kind hk =>
    intro p' rest hp ha _
    obtain ⟨hcurrent, hkind⟩ := same_token ha
    have hread := ReadsOperand.constant (hkind ▸ hk)
    rw [constant_value, hcurrent, ← constant_value] at hread
    exact ⟨_, hread, hp.advance⟩
  | tooDeep | unexpected => simp [diagnostic] at hc
  | negation hk hn _ ih =>
    intro p' rest hp ha hq
    obtain ⟨hcurrent, hkind⟩ := same_token ha
    obtain ⟨q', inner, hq'⟩ := ih hc hp.deeper.advance (advance_ahead ha) hq
    exact ⟨_, hcurrent ▸ .negation (hkind.trans hk) (hp.nesting_lt hn) inner, hq'.exitNesting⟩
  | @parentheses p q r ts ds ns us es hk hn _ close ih =>
    intro p' rest hp ha hq
    rw [clean_append] at hc
    rw [List.append_assoc, List.cons_append] at ha
    obtain ⟨hcurrent, hkind⟩ := same_token ha
    have hahead : q.cursor.ahead = us ++ r.cursor.ahead := (close.effect (by decide)).ahead
    obtain ⟨q', inner, hq'⟩ := ih hc.1 hp.deeper.advance (advance_ahead ha)
      (hahead ▸ hq.append us)
    obtain ⟨r', close', hr', -⟩ := close.elsewhere hc.2 (by simp) hq'.exitNesting
      (inner.effect.ahead_eq (advance_ahead ha))
    exact ⟨_, hcurrent ▸ .parentheses (hkind.trans hk) (hp.nesting_lt hn) inner close', hr'⟩
  | plus hk _ ih =>
    intro p' rest hp ha hq
    obtain ⟨hcurrent, hkind⟩ := same_token ha
    obtain ⟨q', term, hq'⟩ := ih hc hp.advance (advance_ahead ha) hq
    exact ⟨_, hcurrent ▸ .plus (hkind.trans hk) term, hq'⟩
  | minus hk _ ih =>
    intro p' rest hp ha hq
    obtain ⟨hcurrent, hkind⟩ := same_token ha
    obtain ⟨q', term, hq'⟩ := ih hc hp.advance (advance_ahead ha) hq
    exact ⟨_, hcurrent ▸ .minus (hkind.trans hk) term, hq'⟩
  | @unsigned p _ _ _ _ hplus hminus term ih =>
    intro p' rest hp ha hq
    obtain ⟨q', term', hq'⟩ := ih hc hp ha hq
    have hne := term.ne_nil hc trivial
    have hkind : p'.kind = p.kind := by
      rw [kind_eq_nextKind ha, kind_eq_nextKind term.effect.ahead, nextKind_append hne,
        nextKind_append hne]
    exact ⟨q', .unsigned (hkind ▸ hplus) (hkind ▸ hminus) term', hq'⟩
  | @chain s p q r ts ds ls us es ns first others ih ih' =>
    intro p' rest hp ha hr
    rw [clean_append] at hc
    rw [List.append_assoc] at ha
    obtain ⟨q', first', hq'⟩ := ih hc.1 hp ha (others.effect.ahead ▸ hr.append us)
    obtain ⟨r', others', hr'⟩ := ih' hc.2 hq' (first'.effect.ahead_eq ha) hr
    exact ⟨_, .chain first' others', hr'⟩
  | stop hk =>
    intro p' rest hp ha hq
    rw [List.nil_append] at ha
    exact ⟨p', .stop ((ha ▸ hq).operator?_eq_none hp hk), hp⟩
  | @link s op p q r ls ts ds rs us es ns hk right others ih ih' =>
    intro p' rest hp ha hr
    rw [clean_append] at hc
    rw [List.append_assoc, List.cons_append] at ha
    obtain ⟨hcurrent, hkind⟩ := same_token ha
    obtain ⟨q', right', hq'⟩ := ih hc.1 hp.advance (advance_ahead ha)
      (others.effect.ahead ▸ hr.append us)
    obtain ⟨r', others', hr'⟩ := ih' hc.2 hq' (right'.effect.ahead_eq (advance_ahead ha)) hr
    exact ⟨_, hcurrent ▸ .link (hkind ▸ hk) right' others', hr'⟩
  | simple left hk ih =>
    intro p' rest hp ha hq
    obtain ⟨q', left', hq'⟩ := ih hc hp ha hq
    exact ⟨q', .simple left' ((left'.effect.ahead_eq ha ▸ hq).relational?_eq_none hq' hk), hq'⟩
  | @relation op p q r ts ds ls us es rs left hk right ih ih' =>
    intro p' rest hp ha hr
    rw [clean_append] at hc
    rw [List.append_assoc, List.cons_append] at ha
    have hahead : q.cursor.ahead = q.current :: (us ++ r.cursor.ahead) :=
      (right.effect.cons (ne_end_of_inExpression (inExpression_of_relational hk))).ahead
    obtain ⟨q', left', hq'⟩ := ih hc.1 hp ha (.inl (by rw [hahead]; rfl))
    have ha' := left'.effect.ahead_eq ha
    obtain ⟨hcurrent, hkind⟩ := same_token ha'
    obtain ⟨r', right', hr'⟩ := ih' hc.2 hq'.advance (advance_ahead ha') hr
    exact ⟨_, hcurrent ▸ .relation left' (hkind ▸ hk) right', hr'⟩

/-! ## Statements -/

theorem head?_append_congr (h : rest'.head? = rest.head?) (ts : List Token) :
    (ts ++ rest').head? = (ts ++ rest).head? := by
  rw [List.head?_append, List.head?_append, h]

theorem Separates.elsewhere (h : Separates p ts ds q) (hc : Clean ds) (hp : Alike p p')
    (ha : p'.cursor.ahead = ts ++ rest) (hq : rest.head? = q.cursor.ahead.head?) :
    ∃ q', Separates p' ts ds q' ∧ Alike q q' := by
  cases h with
  | semicolon hk =>
    obtain ⟨hcurrent, hkind⟩ := same_token ha
    exact ⟨_, hcurrent ▸ .semicolon (hkind.trans hk), hp.advance⟩
  | closing hk =>
    have hkind : p'.kind = p.kind := by
      rw [← current_kind, hp.current (by rw [ha]; exact hq), current_kind]
    exact ⟨p', .closing (hkind ▸ hk), hp⟩
  | missing | stray => simp [diagnostic] at hc

/-- Behind a clause comes the same token as before. Behind a statement that takes tokens it may also
be another one that no expression goes on with. -/
def Clause.Continues (ts rest rest' : List Token) : Clause → Prop
  | statement => rest'.head? = rest.head? ∨ ts ≠ [] ∧ ∀ prec, Ends prec rest'
  | statements => rest'.head? = rest.head?

/-- **A clean reading of statements goes the same way elsewhere**. -/
theorem ReadsStatement.elsewhere {clause : Clause} (h : ReadsStatement clause p ts ds ns q)
    (hc : Clean ds) : ∀ {p' rest}, Alike p p' → p'.cursor.ahead = ts ++ rest →
      clause.Continues ts q.cursor.ahead rest →
      ∃ q', ReadsStatement clause p' ts ds ns q' ∧ Alike q q' := by
  induction h with
  | @assignment p q r ts ds us es ns hk sign value =>
    intro p' rest hp ha hr
    rw [clean_append] at hc
    rw [List.append_assoc, List.cons_append] at ha
    obtain ⟨hcurrent, hkind⟩ := same_token ha
    obtain ⟨htarget, hafter⟩ := hp.identifier hcurrent false
    have ha' : (identifier false p').after.cursor.ahead = ts ++ (us ++ rest) := by
      rw [identifier_cursor]
      exact advance_ahead ha
    obtain ⟨q', sign', hq', hahead⟩ := sign.elsewhere hc.1 (by simp) hafter ha'
    obtain ⟨r', value', hr'⟩ := value.elsewhere hc.2 hq' hahead (hr.imp id And.right)
    have hread := ReadsStatement.assignment (hkind.trans hk) sign' value'
    rw [htarget, startLine, hcurrent, ← startLine] at hread
    exact ⟨r', hread, hr'⟩
  | tooDeep => simp [diagnostic] at hc
  | @compound p q r ts ds ns us es hk hn _ close ih =>
    intro p' rest hp ha _
    rw [clean_append] at hc
    rw [List.append_assoc, List.cons_append] at ha
    obtain ⟨hcurrent, hkind⟩ := same_token ha
    obtain ⟨-, rfl, -⟩ := close.clean hc.2 (by simp)
    have hahead : q.cursor.ahead = [q.current] ++ r.cursor.ahead :=
      (close.effect (by decide)).ahead
    obtain ⟨q', body, hq'⟩ := ih hc.1 hp.deeper.advance (advance_ahead ha) (by rw [hahead]; rfl)
    obtain ⟨r', close', hr', -⟩ := close.elsewhere hc.2 (by simp) hq'
      (body.effect.ahead_eq (advance_ahead ha))
    have hread := ReadsStatement.compound (hkind.trans hk) (hp.nesting_lt hn) body close'
    rw [startLine, hcurrent, ← startLine] at hread
    exact ⟨_, hread, hr'.exitNesting⟩
  | @empty p hb hi =>
    intro p' rest hp ha hq
    have hcurrent : p'.current = p.current :=
      hp.current (hq.elim (fun h => by rw [ha]; exact h) fun h => absurd rfl h.1)
    have hkind : p'.kind = p.kind := by rw [← current_kind, hcurrent, current_kind]
    have hread := ReadsStatement.empty (hkind ▸ hb) (hkind ▸ hi)
    rw [startLine, hcurrent, ← startLine] at hread
    exact ⟨p', hread, hp⟩
  | @finish p hk =>
    intro p' rest hp ha hq
    have hkind : p'.kind = p.kind := by
      rw [← current_kind, hp.current (by rw [ha]; exact hq), current_kind]
    exact ⟨p', .finish (hkind ▸ hk), hp⟩
  | @round p q r r' ts ds ns us es vs fs ms hk one separator others ih ih' =>
    intro p' rest hp ha hr
    rw [clean_append, clean_append] at hc
    have hround := one.effect.trans separator.effect
    have hne : ts ++ us ≠ [] := List.length_pos_iff.1 (one.round_pos hk separator)
    have hkind : p'.kind = p.kind := by
      rw [kind_eq_nextKind ha, kind_eq_nextKind hround.ahead, List.append_assoc,
        nextKind_append hne, nextKind_append hne]
    rw [List.append_assoc, List.append_assoc] at ha
    have hothers : (vs ++ rest).head? = r.cursor.ahead.head? :=
      others.effect.ahead ▸ head?_append_congr hr vs
    obtain ⟨q', one', hq'⟩ := ih hc.1.1 hp ha
      (.inl (separator.effect.ahead ▸ head?_append_congr hothers us))
    have ha' := one'.effect.ahead_eq ha
    obtain ⟨r₁, separator', hr₁⟩ := separator.elsewhere hc.1.2 hq' ha' hothers
    obtain ⟨r₂, others', hr₂⟩ := ih' hc.2 hr₁ (separator'.effect.ahead_eq ha') hr
    exact ⟨r₂, .round (hkind ▸ hk) one' separator' others', hr₂⟩

end PascalBlock.Parser
