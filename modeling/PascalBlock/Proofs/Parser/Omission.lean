import PascalBlock.Proofs.Parser.Elsewhere

/-!
# An omitted token is repaired

An accepted program from which one `:=`, one `;` between two statements, or one `)` in front of a
`;` or `END` is left out gives the same tree, and one more diagnostic on the token that came behind.
Up to the gap the reading goes as before in front of other tokens, at the gap the rule for the
missing token applies, and behind it the two readings are alike again.
-/

namespace PascalBlock

/-- The punctuation that may be left out, by the kinds of the token before it, of itself, and of the
token behind it; with what is flagged then. -/
inductive Omissible (before : Option TokenKind) (omitted behind : TokenKind) :
    Cause → Component → Prop
  | becomes (ho : omitted = .becomes) :
      Omissible before omitted behind .missingBecomes .assignment
  | semicolon (ho : omitted = .semicolon) (hbehind : behind = .identifier)
      (hbefore : ∃ kind, before = some kind ∧ kind ≠ .beginWord ∧ kind ≠ .semicolon) :
      Omissible before omitted behind .missingSemicolon .statement
  | rightParen (ho : omitted = .rightParen)
      (hbehind : behind = .semicolon ∨ behind = .endWord) :
      Omissible before omitted behind .missingRightParen .expression

namespace Omissible

variable {before : Option TokenKind} {omitted behind : TokenKind} {cause : Cause}
  {component : Component}

theorem kinds (h : Omissible before omitted behind cause component) :
    omitted = .becomes ∨ omitted = .semicolon ∨ omitted = .rightParen := by
  cases h with
  | becomes ho => exact .inl ho
  | semicolon ho => exact .inr (.inl ho)
  | rightParen ho => exact .inr (.inr ho)

theorem ne {kind : TokenKind} (h : Omissible before omitted behind cause component)
    (hk : kind ≠ .becomes ∧ kind ≠ .semicolon ∧ kind ≠ .rightParen) : kind ≠ omitted := by
  rintro rfl
  rcases h.kinds with ho | ho | ho
  · exact hk.1 ho
  · exact hk.2.1 ho
  · exact hk.2.2 ho

/-- Only of a semicolon matters what comes before. -/
theorem of_before {before' : Option TokenKind}
    (h : Omissible before omitted behind cause component)
    (hbefore : omitted = .semicolon → before ≠ some .beginWord → before ≠ some .semicolon →
      before' = before) : Omissible before' omitted behind cause component := by
  cases h with
  | becomes ho => exact .becomes ho
  | rightParen ho hbehind => exact .rightParen ho hbehind
  | semicolon ho hbehind h =>
    obtain ⟨kind, rfl, hb, hs⟩ := h
    exact .semicolon ho hbehind ⟨kind, hbefore ho (by simpa using hb) (by simpa using hs), hb, hs⟩

end Omissible

/-- The kind of the last of the tokens. -/
def lastKind? (ts : List Token) : Option TokenKind := ts.getLast?.map (·.kind)

theorem lastKind?_append {ts us : List Token} (h : us ≠ []) :
    lastKind? (ts ++ us) = lastKind? us := by
  rw [lastKind?, lastKind?, List.getLast?_append_of_ne_nil _ h]

/-- The second diagnostics are the first with `d` somewhere among them. -/
def OneMore (d : Diagnostic) (ds ds' : List Diagnostic) : Prop :=
  ∃ es fs, ds = es ++ fs ∧ ds' = es ++ d :: fs

theorem OneMore.append_left {d : Diagnostic} {ds ds' : List Diagnostic} (h : OneMore d ds ds')
    (es : List Diagnostic) : OneMore d (es ++ ds) (es ++ ds') := by
  obtain ⟨fs, gs, rfl, rfl⟩ := h
  exact ⟨es ++ fs, gs, by simp, by simp⟩

theorem OneMore.append_right {d : Diagnostic} {ds ds' : List Diagnostic} (h : OneMore d ds ds')
    (es : List Diagnostic) : OneMore d (ds ++ es) (ds' ++ es) := by
  obtain ⟨fs, gs, rfl, rfl⟩ := h
  exact ⟨fs, gs ++ es, by simp, by simp⟩

/-- A token of two lists, one behind the other, is one of the first or one of the second. -/
theorem append_eq_append_cons {α : Type} {xs ys pre post : List α} {t : α}
    (h : xs ++ ys = pre ++ t :: post) :
    (∃ more, xs = pre ++ t :: more ∧ post = more ++ ys) ∨
      ∃ more, pre = xs ++ more ∧ ys = more ++ t :: post := by
  rcases List.append_eq_append_iff.1 h with ⟨more, rfl, rfl⟩ | ⟨more, rfl, hmore⟩
  · exact .inr ⟨more, rfl, rfl⟩
  · cases more with
    | nil => exact .inr ⟨[], by simp, by simpa using hmore.symm⟩
    | cons s more =>
      obtain ⟨rfl, rfl⟩ := List.cons.inj hmore
      exact .inl ⟨more, rfl, rfl⟩

/-- The tokens up to some place reach beyond any token in front of it. -/
theorem eq_append_of_prefix {α : Type} {xs pre post : List α} {t : α} (h : xs <+: pre ++ t :: post)
    (hlt : pre.length < xs.length) : ∃ more, xs = pre ++ t :: more ∧ more <+: post := by
  obtain ⟨ys, hys⟩ := h
  rcases append_eq_append_cons hys with ⟨more, rfl, rfl⟩ | ⟨more, rfl, -⟩
  · exact ⟨more, rfl, List.prefix_append more ys⟩
  · rw [List.length_append] at hlt
    omega

namespace Parser

variable {p p' q r : Parser} {ts us pre post more : List Token} {t next : Token}
  {ds es : List Diagnostic} {ns ms : List Node} {cause : Cause} {component : Component}

theorem Alike.behind (h : Alike p p') : Alike p.advance p' :=
  ⟨h.last, h.handlers, h.scopes, h.nesting⟩

theorem diagnostic_of_ahead (h : p.cursor.ahead = t :: ts) (cause : Cause)
    (component : Component) : p.diagnostic cause component = .on t cause component := by
  rw [Parser.diagnostic, current_eq h]
  rfl

/-! ## A parenthesis -/

/-- A token of another kind than the first one lies behind it. -/
theorem eq_cons_of_cons_eq_append {s : Token} (h : s :: ts = pre ++ t :: post)
    (hs : s.kind ≠ t.kind) : ∃ pre', pre = s :: pre' ∧ ts = pre' ++ t :: post := by
  rcases List.cons_eq_append_iff.1 h with ⟨-, hts⟩ | h
  · obtain ⟨rfl, -⟩ := List.cons.inj hts
    exact absurd rfl hs
  · exact h

/-- The last of the tokens of two phrases belongs to the second, unless that takes none. -/
theorem append_eq_concat (h : ts ++ us = pre ++ [t]) :
    us = [] ∧ ts = pre ++ [t] ∨ ∃ us', us = us' ++ [t] ∧ pre = ts ++ us' := by
  rcases us.eq_nil_or_concat' with rfl | ⟨us, c, rfl⟩
  · rw [List.append_nil] at h
    exact .inl ⟨rfl, h⟩
  · rw [← List.append_assoc] at h
    obtain ⟨rfl, hc⟩ := List.append_inj' h rfl
    exact .inr ⟨us, by rw [hc], rfl⟩

/-- A single token is the last one. -/
theorem eq_of_singleton_eq_concat {s : Token} (h : [s] = us ++ [t]) : t = s := by
  rw [← List.nil_append [s]] at h
  obtain ⟨-, ht⟩ := List.append_inj' h rfl
  exact (List.singleton_inj.1 ht).symm

/-- The links of a chain that take no token are none. -/
theorem ReadsOperand.stopped {s : Strength} {ls : List Node}
    (h : ReadsOperand (.links s ls) p [] ds ns q) :
    s.operator? p.kind = none ∧ ds = [] ∧ ns = ls ∧ q = p := by
  cases h with
  | stop hk => exact ⟨hk, rfl, rfl, rfl⟩

theorem ne_rightParen_of_operator {s : Strength} {op : NodeKind}
    (hk : s.operator? p.kind = some op) : p.kind ≠ .rightParen := by
  intro h
  rw [h] at hk
  cases s <;> cases hk

/-- In front of what no expression goes on with, the phrase is read as before without the `)` at its
end, and that is flagged. -/
def Unclosed (phrase : Phrase) (p : Parser) (ts : List Token) (ds : List Diagnostic)
    (ns : List Node) (q : Parser) : Prop :=
  ∀ ⦃us : List Token⦄ ⦃t : Token⦄ ⦃p' : Parser⦄, ts = us ++ [t] → t.kind = .rightParen →
    (∀ prec, Ends prec q.cursor.ahead) → q.kind ≠ .rightParen → Alike p p' →
    p'.cursor.ahead = us ++ q.cursor.ahead →
    ∃ q', ReadsOperand phrase p' us (ds ++ [q.diagnostic .missingRightParen .expression]) ns q' ∧
      Alike q q'

/-- Here the `)` is the one that closes the parentheses. -/
theorem unclosed_parentheses (hk : p.kind = .leftParen) (hn : p.nesting < maxNesting)
    (inner : ReadsOperand .expression p.deeper.advance ts ds ns q) (hc : Clean ds) :
    Unclosed .factor p (p.current :: ts ++ [q.exitNesting.current]) ds ns
      q.exitNesting.advance := by
  intro us t p' hts _ hends hr hp ha
  obtain ⟨rfl, -⟩ := List.append_inj' hts rfl
  obtain ⟨hcurrent, hkind⟩ := same_token ha
  obtain ⟨q', inner', hq'⟩ := inner.elsewhere hc hp.deeper.advance (advance_ahead ha) (.inr hends)
  have hahead := inner'.effect.ahead_eq (advance_ahead ha)
  have halike : Alike q.exitNesting.advance q'.exitNesting := hq'.exitNesting.behind
  have hcurrent' := halike.current (congrArg List.head? hahead)
  have hkind' : q'.exitNesting.kind ≠ .rightParen := by
    rw [← current_kind, hcurrent']
    exact hr
  have hread := ReadsOperand.parentheses (hkind.trans hk) (hp.nesting_lt hn) inner'
    (.missing hkind')
  rw [diagnostic_congr hcurrent', hcurrent, List.append_nil] at hread
  exact ⟨_, hread, halike.flag ..⟩

/-- A term does not begin with the `)`, so its first token is still there. -/
theorem Unclosed.unsigned (h : Unclosed (.chain .multiplicative) p ts ds ns q)
    (term : ReadsOperand (.chain .multiplicative) p ts ds ns q) (hc : Clean ds)
    (hplus : p.kind ≠ .plus) (hminus : p.kind ≠ .minus) : Unclosed .signed p ts ds ns q := by
  intro us t p' hts ht hends hq hp ha
  obtain ⟨q', term', hq'⟩ := h hts ht hends hq hp ha
  have hahead : p.cursor.ahead = us ++ t :: q.cursor.ahead := by
    rw [term.effect.ahead, hts, List.append_assoc, List.singleton_append]
  have hne : us ≠ [] := by
    rintro rfl
    have hstart := term.startsFactor hc
    rw [kind_eq_nextKind hahead] at hstart
    simp [nextKind, ht, Parser.startsFactor, constantKind?, opensLevel] at hstart
  have hkind : p'.kind = p.kind := by
    rw [kind_eq_nextKind ha, kind_eq_nextKind hahead, nextKind_append hne, nextKind_append hne]
  exact ⟨q', .unsigned (hkind ▸ hplus) (hkind ▸ hminus) term', hq'⟩

section
variable {s : Strength} {ls : List Node}

/-- The `)` ends the last of the links of a chain, or what stands in front of them. -/
theorem Unclosed.chain (h : Unclosed s.first p ts ds ls q)
    (h' : Unclosed (.links s ls) q us es ns r) (first : ReadsOperand s.first p ts ds ls q)
    (others : ReadsOperand (.links s ls) q us es ns r) (hc : Clean ds) :
    Unclosed (.chain s) p (ts ++ us) (ds ++ es) ns r := by
  intro ws t p' hts ht hends hr hp ha
  rcases append_eq_concat hts with ⟨rfl, rfl⟩ | ⟨us, rfl, rfl⟩
  · obtain ⟨-, rfl, rfl, rfl⟩ := others.stopped
    obtain ⟨q', first', hq'⟩ := h rfl ht hends hr hp ha
    have hstop := operator?_eq_none (hends s.precedence) (first'.effect.ahead_eq ha)
    have hread := ReadsOperand.chain first' (.stop hstop)
    rw [List.append_nil, List.append_nil] at hread
    exact ⟨q', by rwa [List.append_nil], hq'⟩
  · rw [List.append_assoc] at ha
    have hahead := others.effect.ahead
    rw [List.append_assoc] at hahead
    obtain ⟨q', first', hq'⟩ := first.elsewhere hc hp ha
      (hahead ▸ Continues.append (.inr hends) us)
    obtain ⟨r', others', hr'⟩ := h' rfl ht hends hr hq' (first'.effect.ahead_eq ha)
    have hread := ReadsOperand.chain first' others'
    rw [← List.append_assoc] at hread
    exact ⟨r', hread, hr'⟩

/-- The `)` ends the operand behind the operator, or a later one. -/
theorem Unclosed.link {op : NodeKind} (hk : s.operator? p.kind = some op)
    (h : Unclosed s.operand p.advance ts ds ms q)
    (h' : Unclosed (.links s [.mk op .empty (ls ++ ms)]) q us es ns r)
    (right : ReadsOperand s.operand p.advance ts ds ms q)
    (others : ReadsOperand (.links s [.mk op .empty (ls ++ ms)]) q us es ns r) (hc : Clean ds) :
    Unclosed (.links s ls) p (p.current :: ts ++ us) (ds ++ es) ns r := by
  intro ws t p' hts ht hends hr hp ha
  have hop : p.current.kind ≠ t.kind := ht ▸ ne_rightParen_of_operator hk
  rcases append_eq_concat hts with ⟨rfl, hts'⟩ | ⟨us, rfl, rfl⟩
  · obtain ⟨-, rfl, rfl, rfl⟩ := others.stopped
    obtain ⟨ws, rfl, rfl⟩ := eq_cons_of_cons_eq_append hts' hop
    obtain ⟨hcurrent, hkind⟩ := same_token ha
    obtain ⟨q', right', hq'⟩ := h rfl ht hends hr hp.advance (advance_ahead ha)
    have hstop := operator?_eq_none (hends s.precedence)
      (right'.effect.ahead_eq (advance_ahead ha))
    have hread : ReadsOperand (.links s ls) p' _ _ _ _ :=
      .link (hkind ▸ hk) right' (.stop hstop)
    rw [List.append_nil, List.append_nil, hcurrent] at hread
    exact ⟨q', by rwa [List.append_nil], hq'⟩
  · rw [List.append_assoc] at ha
    obtain ⟨hcurrent, hkind⟩ := same_token ha
    have hahead := others.effect.ahead
    rw [List.append_assoc] at hahead
    obtain ⟨q', right', hq'⟩ := right.elsewhere hc hp.advance (advance_ahead ha)
      (hahead ▸ Continues.append (.inr hends) us)
    obtain ⟨r', others', hr'⟩ := h' rfl ht hends hr hq' (right'.effect.ahead_eq (advance_ahead ha))
    have hread := ReadsOperand.link (hkind ▸ hk) right' others'
    rw [← List.append_assoc, hcurrent] at hread
    exact ⟨r', hread, hr'⟩

end

/-- The `)` ends the right side of a relation. -/
theorem Unclosed.relation {op : NodeKind} (hk : q.kind.relational? = some op)
    (h : Unclosed (.chain .additive) q.advance us es ms r)
    (left : ReadsOperand (.chain .additive) p ts ds ns q)
    (right : ReadsOperand (.chain .additive) q.advance us es ms r) (hc : Clean ds) :
    Unclosed .expression p (ts ++ q.current :: us) (ds ++ es) [.mk op .empty (ns ++ ms)] r := by
  intro ws t p' hts ht hends hr hp ha
  have hop : q.current.kind ≠ t.kind := by
    rw [ht, current_kind]
    intro h
    rw [h] at hk
    cases hk
  obtain ⟨hnil, -⟩ | ⟨us', hus, rfl⟩ := append_eq_concat hts
  · cases hnil
  obtain ⟨us', rfl, rfl⟩ := eq_cons_of_cons_eq_append hus hop
  rw [List.append_assoc, List.cons_append] at ha
  have hahead := (right.effect.cons
    (ne_end_of_inExpression (inExpression_of_relational hk))).ahead
  obtain ⟨q', left', hq'⟩ := left.elsewhere hc hp ha (.inl (by rw [hahead]; rfl))
  have ha' := left'.effect.ahead_eq ha
  obtain ⟨hcurrent, hkind⟩ := same_token ha'
  obtain ⟨r', right', hr'⟩ := h rfl ht hends hr hq'.advance (advance_ahead ha')
  have hread := ReadsOperand.relation left' (hkind ▸ hk) right'
  rw [← List.append_assoc, hcurrent] at hread
  exact ⟨r', hread, hr'⟩

/-- **A parenthesis that is not closed costs nothing else**. -/
theorem ReadsOperand.unclosed {phrase : Phrase} (h : ReadsOperand phrase p ts ds ns q)
    (hc : Clean ds) : Unclosed phrase p ts ds ns q := by
  induction h with
  | identifier hk =>
    intro us t p' hts ht
    rw [eq_of_singleton_eq_concat hts, current_kind, hk] at ht
    cases ht
  | constant hk =>
    intro us t p' hts ht
    rw [eq_of_singleton_eq_concat hts, current_kind] at ht
    rw [ht] at hk
    cases hk
  | tooDeep | unexpected => simp [diagnostic] at hc
  | negation hk hn _ ih =>
    intro us t p' hts ht hends hq hp ha
    obtain ⟨us, rfl, rfl⟩ := eq_cons_of_cons_eq_append hts (by rw [current_kind, hk, ht]; decide)
    obtain ⟨hcurrent, hkind⟩ := same_token ha
    obtain ⟨q', inner, hq'⟩ := ih hc rfl ht hends hq hp.deeper.advance (advance_ahead ha)
    exact ⟨_, hcurrent ▸ .negation (hkind.trans hk) (hp.nesting_lt hn) inner, hq'.exitNesting⟩
  | parentheses hk hn inner close =>
    cases close with
    | missing => simp [diagnostic] at hc
    | found =>
      rw [List.append_nil] at hc ⊢
      exact unclosed_parentheses hk hn inner hc
  | plus hk _ ih =>
    intro us t p' hts ht hends hq hp ha
    obtain ⟨us, rfl, rfl⟩ := eq_cons_of_cons_eq_append hts (by rw [current_kind, hk, ht]; decide)
    obtain ⟨hcurrent, hkind⟩ := same_token ha
    obtain ⟨q', term, hq'⟩ := ih hc rfl ht hends hq hp.advance (advance_ahead ha)
    exact ⟨_, hcurrent ▸ .plus (hkind.trans hk) term, hq'⟩
  | minus hk _ ih =>
    intro us t p' hts ht hends hq hp ha
    obtain ⟨us, rfl, rfl⟩ := eq_cons_of_cons_eq_append hts (by rw [current_kind, hk, ht]; decide)
    obtain ⟨hcurrent, hkind⟩ := same_token ha
    obtain ⟨q', term, hq'⟩ := ih hc rfl ht hends hq hp.advance (advance_ahead ha)
    exact ⟨_, hcurrent ▸ .minus (hkind.trans hk) term, hq'⟩
  | unsigned hplus hminus term ih => exact (ih hc).unsigned term hc hplus hminus
  | chain first others ih ih' =>
    rw [clean_append] at hc
    exact (ih hc.1).chain (ih' hc.2) first others hc.1
  | stop =>
    intro us t p' hts
    simp at hts
  | link hk right others ih ih' =>
    rw [clean_append] at hc
    exact .link hk (ih hc.1) (ih' hc.2) right others hc.1
  | simple left hk ih =>
    intro us t p' hts ht hends hq hp ha
    obtain ⟨q', left', hq'⟩ := ih hc hts ht hends hq hp ha
    exact ⟨q', .simple left' (relational?_eq_none (hends _) (left'.effect.ahead_eq ha)), hq'⟩
  | relation left hk right _ ih' =>
    rw [clean_append] at hc
    exact (ih' hc.2).relation hk left right hc.1

/-! ## Statements -/

/-- A statement that takes tokens begins with a word or a name, which is not left out. -/
theorem ReadsStatement.ne_nil_of_omissible {before : Option TokenKind} {behind : TokenKind}
    (h : ReadsStatement .statement p (pre ++ t :: post) ds ns q) (hc : Clean ds)
    (ho : Omissible before t.kind behind cause component) : pre ≠ [] := by
  rintro rfl
  have hstart := nextKind_statement (h.derived hc) (List.append_ne_nil_of_right_ne_nil _ nofun)
  change t.kind = .beginWord ∨ t.kind = .identifier at hstart
  rcases ho.kinds with hk | hk | hk <;> simp [hk] at hstart

/-- Without its `:=` an assignment is read as before. -/
theorem ReadsStatement.without_becomes (hk : p.kind = .identifier)
    (sign : Expects .becomes .missingBecomes .assignment (identifier false p).after [t] [] q)
    (value : ReadsOperand .expression q us ds ns r) (hc : Clean ds)
    (hnext : us ++ r.cursor.ahead = next :: more) (hp : Alike p p')
    (ha : p'.cursor.ahead = p.current :: next :: more) :
    ∃ r', ReadsStatement .statement p' (p.current :: us)
      (.on next .missingBecomes .assignment :: ds)
      [.mk .assign p.startLine ((identifier false p).value :: ns)] r' ∧ Alike r r' := by
  cases sign with
  | found hsign =>
    obtain ⟨hcurrent, hkind⟩ := same_token ha
    obtain ⟨htarget, hafter⟩ := hp.identifier hcurrent false
    have ha' : (identifier false p').after.cursor.ahead = next :: more := by
      rw [identifier_cursor]
      exact advance_ahead ha
    -- the value has a first token, and that is not a second sign
    have hne := value.ne_nil hc trivial
    have hnot : (identifier false p').after.kind ≠ .becomes := by
      rw [kind_eq_nextKind ha', ← hnext, nextKind_append hne]
      obtain ⟨u, us, rfl⟩ := List.exists_cons_of_ne_nil hne
      exact ne_of_inExpression (value.inExpression u List.mem_cons_self) rfl
    obtain ⟨r', value', hr'⟩ := value.elsewhere hc (hafter.behind.flag _ _)
      (ha'.trans hnext.symm) (.inl rfl)
    have hread := ReadsStatement.assignment (hkind.trans hk) (.missing hnot) value'
    rw [htarget, startLine, hcurrent, ← startLine, diagnostic_of_ahead ha'] at hread
    exact ⟨r', hread, hr'⟩

/-- The value of an assignment is read as before without the `)` at its end. -/
theorem ReadsStatement.value_unclosed (hk : p.kind = .identifier)
    (sign : Expects .becomes .missingBecomes .assignment (identifier false p).after ts [] q)
    (value : ReadsOperand .expression q (us ++ [t]) ds ns r) (hc : Clean ds)
    (ht : t.kind = .rightParen) (hr : r.cursor.ahead = next :: more)
    (hnext : next.kind = .semicolon ∨ next.kind = .endWord) (hp : Alike p p')
    (ha : p'.cursor.ahead = p.current :: ts ++ (us ++ next :: more)) :
    ∃ r', ReadsStatement .statement p' (p.current :: ts ++ us)
      (ds ++ [.on next .missingRightParen .expression])
      [.mk .assign p.startLine ((identifier false p).value :: ns)] r' ∧ Alike r r' := by
  obtain ⟨hcurrent, hkind⟩ := same_token ha
  obtain ⟨htarget, hafter⟩ := hp.identifier hcurrent false
  have ha' : (identifier false p').after.cursor.ahead = ts ++ (us ++ next :: more) := by
    rw [identifier_cursor]
    exact advance_ahead ha
  obtain ⟨q', sign', hq', hahead⟩ := sign.elsewhere clean_nil (by simp) hafter ha'
  have hends : ∀ prec, Ends prec r.cursor.ahead := ends_of_closing (by rw [hr]; exact hnext)
  have hkind' : r.kind ≠ .rightParen := by
    rw [kind_eq_nextKind hr]
    rintro hclose
    change next.kind = .rightParen at hclose
    simp [hclose] at hnext
  obtain ⟨r', value', hr'⟩ := value.unclosed hc rfl ht hends hkind' hq' (hr ▸ hahead)
  have hread := ReadsStatement.assignment (hkind.trans hk) sign' value'
  rw [htarget, startLine, hcurrent, ← startLine, diagnostic_of_ahead hr] at hread
  exact ⟨r', hread, hr'⟩

/-- Without the `;` behind its first statement a block is read as before. -/
theorem ReadsStatement.without_semicolon (hk : ¬ (p.kind = .endWord ∨ p.kind = .endOfText))
    (one : ReadsStatement .statement p ts ds ns q) (hc : Clean ds) (hts : ts ≠ [])
    (others : ReadsStatement .statements q.advance us es ms r) (hc' : Clean es)
    (hnext : us ++ r.cursor.ahead = next :: more) (hkind : next.kind = .identifier)
    (hp : Alike p p') (ha : p'.cursor.ahead = ts ++ next :: more) :
    ∃ r', ReadsStatement .statements p' (ts ++ us)
      (ds ++ .on next .missingSemicolon .statement :: es) (ns ++ ms) r' ∧
      Alike r r' := by
  have hkind' : p'.kind = p.kind := by
    rw [kind_eq_nextKind ha, kind_eq_nextKind one.effect.ahead, nextKind_append hts,
      nextKind_append hts]
  have hends : ∀ prec, Ends prec (next :: more) := fun prec => ends_of_kind hkind nofun
  obtain ⟨q', one', hq'⟩ := one.elsewhere hc hp ha (.inr ⟨hts, hends⟩)
  have ha' := one'.effect.ahead_eq ha
  obtain ⟨r', others', hr'⟩ := others.elsewhere hc' (hq'.behind.flag _ _)
    (ha'.trans hnext.symm) rfl
  have hread := ReadsStatement.round (hkind' ▸ hk) one'
    (.missing ((kind_eq_nextKind ha').trans hkind)) others'
  rw [diagnostic_of_ahead ha', List.append_nil, List.append_assoc, List.singleton_append] at hread
  exact ⟨r', hread, hr'⟩

/-- A statement and the `;` behind it are read as before, whatever statements follow. -/
theorem ReadsStatement.round_elsewhere (one : ReadsStatement .statement p ts ds ns q) (hc : Clean ds)
    (hk : ¬ (p.kind = .endWord ∨ p.kind = .endOfText)) (hs : q.kind = .semicolon)
    (hp : Alike p p') (ha : p'.cursor.ahead = (ts ++ [q.current]) ++ more) :
    ∃ q', Alike q.advance q' ∧ q'.cursor.ahead = more ∧
      ∀ {us es ms r}, ReadsStatement .statements q' us es ms r →
        ReadsStatement .statements p' (ts ++ [q.current] ++ us) (ds ++ es) (ns ++ ms) r := by
  have hahead := (one.effect.trans (.advance (by simp [hs]))).ahead
  have hne : ts ++ [q.current] ≠ [] := by simp
  have hkind : p'.kind = p.kind := by
    rw [kind_eq_nextKind ha, kind_eq_nextKind hahead, nextKind_append hne, nextKind_append hne]
  rw [List.append_assoc] at ha
  obtain ⟨q', one', hq'⟩ := one.elsewhere hc hp ha
    (.inl (by rw [Cursor.ahead_eq_cons (show q.kind ≠ .endOfText by simp [hs])]; rfl))
  have ha' := one'.effect.ahead_eq ha
  obtain ⟨hcurrent, hkind'⟩ := same_token ha'
  refine ⟨_, hq'.advance, advance_ahead ha', fun others => ?_⟩
  have hread := ReadsStatement.round (hkind ▸ hk) one' (.semicolon (hkind'.trans hs)) others
  rwa [hcurrent, List.append_nil] at hread

/-- Without an omissible token among those that it takes the clause is read as before, and only the
token behind the gap is flagged. -/
def Repaired (clause : Clause) (p : Parser) (ts : List Token) (ds : List Diagnostic)
    (ns : List Node) (q : Parser) : Prop :=
  ∀ ⦃pre t post next more p' cause component⦄, ts = pre ++ t :: post →
    post ++ q.cursor.ahead = next :: more →
    Omissible (lastKind? pre) t.kind next.kind cause component → Alike p p' →
    p'.cursor.ahead = pre ++ next :: more →
    ∃ ds' q', ReadsStatement clause p' (pre ++ post) ds' ns q' ∧ Alike q q' ∧
      OneMore (.on next cause component) ds ds'

/-- What may be left out of the value of an assignment is the `)` at its end. -/
theorem omissible_in_value (value : ReadsOperand .expression p (pre ++ t :: post) ds ns q)
    (hnext : post ++ q.cursor.ahead = next :: more) {before : Option TokenKind}
    (ho : Omissible before t.kind next.kind cause component) :
    post = [] ∧ t.kind = .rightParen ∧ (next.kind = .semicolon ∨ next.kind = .endWord) ∧
      cause = .missingRightParen ∧ component = .expression := by
  have hvalue := value.inExpression
  rw [List.forall_mem_append, List.forall_mem_cons] at hvalue
  cases ho with
  | becomes ho | semicolon ho =>
    rw [ho] at hvalue
    exact absurd hvalue.2.1 (by decide)
  | rightParen ho hbehind =>
    cases post with
    | nil => exact ⟨rfl, ho, hbehind, rfl, rfl⟩
    | cons u post =>
      obtain ⟨rfl, -⟩ := List.cons.inj hnext
      have hu := hvalue.2.2 u List.mem_cons_self
      rcases hbehind with hk | hk <;> rw [hk] at hu <;> cases hu

theorem repaired_assignment (hk : p.kind = .identifier)
    (sign : Expects .becomes .missingBecomes .assignment (identifier false p).after ts [] q)
    (value : ReadsOperand .expression q us ds ns r) (hc : Clean ds) :
    Repaired .statement p (p.current :: ts ++ us) ds
      [.mk .assign p.startLine ((identifier false p).value :: ns)] r := by
  intro pre t post next more p' cause component hts hnext ho hp ha
  obtain ⟨pre, rfl, hts'⟩ := eq_cons_of_cons_eq_append hts
    (ho.ne (by rw [current_kind, hk]; decide))
  change ts ++ us = pre ++ t :: post at hts'
  rcases append_eq_append_cons hts' with ⟨post, rfl, rfl⟩ | ⟨pre, rfl, rfl⟩
  · -- the gap is in front of the value
    obtain ⟨hsign, hts'', -⟩ := sign.clean clean_nil (by simp)
    obtain ⟨rfl, rfl, rfl⟩ : pre = [] ∧ t = (identifier false p).after.current ∧ post = [] := by
      simpa [List.append_eq_singleton_iff] using hts''
    cases ho with
    | semicolon ho | rightParen ho =>
      rw [current_kind, hsign] at ho
      cases ho
    | becomes ho =>
      obtain ⟨r', hread, hr'⟩ := ReadsStatement.without_becomes hk sign value hc hnext hp ha
      exact ⟨_, r', hread, hr', [], ds, rfl, rfl⟩
  · -- the gap is in the value
    obtain ⟨rfl, ht, hbehind, rfl, rfl⟩ := omissible_in_value value hnext ho
    rw [List.cons_append, List.append_assoc] at ha
    obtain ⟨r', hread, hr'⟩ := ReadsStatement.value_unclosed hk sign value hc ht hnext
      hbehind hp ha
    exact ⟨_, r', by simpa using hread, hr', ds, [], by simp, rfl⟩

/-- The gap in a block is one between its words. -/
theorem Repaired.compound (h : Repaired .statements p.deeper.advance ts ds ns q)
    (hk : p.kind = .beginWord) (hn : p.nesting < maxNesting)
    (close : Expects .endWord .missingEnd .compound q us es r) (hc : Clean es) :
    Repaired .statement p (p.current :: ts ++ us) (ds ++ es) [.mk .compound p.startLine ns]
      r.exitNesting := by
  intro pre t post next more p' cause component hts hnext ho hp ha
  obtain ⟨pre, rfl, hts'⟩ := eq_cons_of_cons_eq_append hts
    (ho.ne (by rw [current_kind, hk]; decide))
  change ts ++ us = pre ++ t :: post at hts'
  obtain ⟨hend, rfl, rfl⟩ := close.clean hc (by simp)
  rcases append_eq_append_cons hts' with ⟨post, rfl, rfl⟩ | ⟨post', rfl, hpost⟩
  · obtain ⟨hcurrent, hkind⟩ := same_token ha
    have hahead : q.cursor.ahead = [q.current] ++ q.advance.cursor.ahead :=
      (close.effect (by decide)).ahead
    have hbegin : lastKind? [p.current] = some .beginWord := by
      rw [← hk]
      rfl
    have ho' : Omissible (lastKind? pre) t.kind next.kind cause component := by
      refine ho.of_before fun _ hbefore _ => ?_
      cases pre with
      | nil => exact absurd hbegin hbefore
      | cons s pre => rfl
    obtain ⟨ds', q', body', hq', hmore⟩ := h rfl (by rw [hahead, ← hnext]; simp) ho'
      hp.deeper.advance (advance_ahead ha)
    have ha' : q'.cursor.ahead = [q.current] ++ q.advance.cursor.ahead :=
      body'.effect.ahead_eq ((advance_ahead ha).trans (by rw [← hnext]; simp))
    obtain ⟨r', close', hr', -⟩ := close.elsewhere hc (by simp) hq' ha'
    have hread := ReadsStatement.compound (hkind.trans hk) (hp.nesting_lt hn) body' close'
    rw [startLine, hcurrent, ← startLine] at hread
    exact ⟨_, _, by simpa using hread, hr'.exitNesting, hmore.append_right es⟩
  · -- the gap is not the end of the block
    have ht : t ∈ [q.current] := hpost ▸ List.mem_append_right _ List.mem_cons_self
    rw [List.mem_singleton.1 ht, current_kind, hend] at ho
    exact absurd rfl (ho.ne (by decide) : TokenKind.endWord ≠ .endWord)

section
variable {r' : Parser} {vs : List Token} {fs : List Diagnostic}

/-- The gap is in the first statement of a block. -/
theorem Repaired.first (h : Repaired .statement p (pre ++ t :: post) ds ns q)
    (hk : ¬ (p.kind = .endWord ∨ p.kind = .endOfText))
    (one : ReadsStatement .statement p (pre ++ t :: post) ds ns q) (separator : Separates q us es r)
    (others : ReadsStatement .statements r vs fs ms r') (hc : Clean (ds ++ es ++ fs))
    (hnext : post ++ (us ++ vs) ++ r'.cursor.ahead = next :: more)
    (ho : Omissible (lastKind? pre) t.kind next.kind cause component) (hp : Alike p p')
    (ha : p'.cursor.ahead = pre ++ next :: more) :
    ∃ ds' q', ReadsStatement .statements p' (pre ++ (post ++ (us ++ vs))) ds' (ns ++ ms) q' ∧
      Alike r' q' ∧ OneMore (.on next cause component) (ds ++ es ++ fs) ds' := by
  rw [clean_append, clean_append] at hc
  have hpre := one.ne_nil_of_omissible hc.1.1 ho
  have hkind : p'.kind = p.kind := by
    rw [kind_eq_nextKind ha, kind_eq_nextKind one.effect.ahead, List.append_assoc,
      nextKind_append hpre, nextKind_append hpre]
  have hahead : q.cursor.ahead = us ++ vs ++ r'.cursor.ahead :=
    (separator.effect.trans others.effect).ahead
  obtain ⟨ds', q', one', hq', hmore⟩ := h rfl (by rw [hahead, ← hnext]; simp) ho hp ha
  have ha' : q'.cursor.ahead = us ++ (vs ++ r'.cursor.ahead) :=
    one'.effect.ahead_eq (by rw [ha, ← hnext]; simp)
  obtain ⟨r₁, separator', hr₁⟩ := separator.elsewhere hc.1.2 hq' ha' (by rw [others.effect.ahead])
  obtain ⟨r₂, others', hr₂⟩ := others.elsewhere hc.2 hr₁ (separator'.effect.ahead_eq ha') rfl
  have hread := ReadsStatement.round (hkind ▸ hk) one' separator' others'
  rw [List.append_assoc, List.append_assoc] at hread
  exact ⟨_, r₂, by simpa using hread, hr₂, (hmore.append_right es).append_right fs⟩

/-- The gap is behind the `;` that follows the first statement of a block. -/
theorem Repaired.later (h : Repaired .statements q.advance (pre ++ t :: post) fs ms r)
    (hk : ¬ (p.kind = .endWord ∨ p.kind = .endOfText))
    (one : ReadsStatement .statement p ts ds ns q) (hc : Clean ds) (hs : q.kind = .semicolon)
    (hnext : post ++ r.cursor.ahead = next :: more)
    (ho : Omissible (lastKind? (ts ++ q.current :: pre)) t.kind next.kind cause component)
    (hp : Alike p p') (ha : p'.cursor.ahead = ts ++ q.current :: pre ++ next :: more) :
    ∃ ds' q', ReadsStatement .statements p' (ts ++ q.current :: pre ++ post) ds' (ns ++ ms) q' ∧
      Alike r q' ∧ OneMore (.on next cause component) (ds ++ fs) ds' := by
  have hsemicolon : lastKind? (ts ++ [q.current]) = some .semicolon := by
    rw [lastKind?_append (by simp), ← hs]
    rfl
  rw [← List.singleton_append, ← List.append_assoc] at ha ho
  have ho' : Omissible (lastKind? pre) t.kind next.kind cause component := by
    refine ho.of_before fun _ _ hbefore => ?_
    by_cases hpre : pre = []
    · rw [hpre, List.append_nil] at hbefore
      exact absurd hsemicolon hbefore
    · exact (lastKind?_append hpre).symm
  rw [List.append_assoc] at ha
  obtain ⟨q', hq', ha', hround⟩ := one.round_elsewhere hc hk hs hp ha
  obtain ⟨ds', r'', others', hr'', hmore⟩ := h rfl hnext ho' hq' ha'
  exact ⟨_, r'', by simpa using hround others', hr'', hmore.append_left ds⟩

/-- The gap is in the first statement of a block, or it is the `;` behind it, or it is in a later
one. -/
theorem Repaired.round (h : Repaired .statement p ts ds ns q)
    (h' : Repaired .statements r vs fs ms r') (hk : ¬ (p.kind = .endWord ∨ p.kind = .endOfText))
    (one : ReadsStatement .statement p ts ds ns q) (separator : Separates q us es r)
    (others : ReadsStatement .statements r vs fs ms r') (hc : Clean (ds ++ es ++ fs)) :
    Repaired .statements p (ts ++ us ++ vs) (ds ++ es ++ fs) (ns ++ ms) r' := by
  intro pre t post next more p' cause component hts hnext ho hp ha
  rw [List.append_assoc] at hts
  rcases append_eq_append_cons hts with ⟨post, rfl, rfl⟩ | ⟨pre, rfl, hts'⟩
  · exact h.first hk one separator others hc hnext ho hp ha
  rw [clean_append, clean_append] at hc
  cases separator with
  | missing | stray => simp [diagnostic] at hc
  | closing hk' =>
    obtain ⟨rfl, -, -, -⟩ := others.unique (.finish hk')
    simp at hts'
  | semicolon hs =>
    rw [List.singleton_append] at hts'
    rcases List.cons_eq_append_iff.1 hts' with ⟨rfl, htoken⟩ | ⟨pre, rfl, rfl⟩
    · obtain ⟨rfl, rfl⟩ := List.cons.inj htoken
      cases ho with
      | becomes ho | rightParen ho =>
        rw [current_kind, hs] at ho
        cases ho
      | semicolon ho hbehind hbefore =>
        rw [List.append_nil] at ha ⊢ hbefore
        have hts : ts ≠ [] := by
          rintro rfl
          obtain ⟨kind, hkind, -⟩ := hbefore
          cases hkind
        obtain ⟨r'', hread, hr''⟩ := ReadsStatement.without_semicolon hk one hc.1.1 hts others
          hc.2 hnext hbehind hp ha
        exact ⟨_, r'', hread, hr'', ds, fs, by simp, rfl⟩
    · rw [List.append_nil]
      exact h'.later hk one hc.1.1 hs hnext ho hp ha

end

/-- **A statement is repaired**. -/
theorem ReadsStatement.repaired {clause : Clause} (h : ReadsStatement clause p ts ds ns q)
    (hc : Clean ds) : Repaired clause p ts ds ns q := by
  induction h with
  | assignment hk sign value =>
    rw [clean_append] at hc
    cases sign with
    | missing => simp [diagnostic] at hc
    | found hsign => exact repaired_assignment hk (.found hsign) value hc.2
  | tooDeep => simp [diagnostic] at hc
  | compound hk hn _ close ih =>
    rw [clean_append] at hc
    exact (ih hc.1).compound hk hn close hc.2
  | empty | finish =>
    intro pre t post next more p' cause component hts
    simp at hts
  | round hk one separator others ih ih' =>
    have hcs := hc
    rw [clean_append, clean_append] at hcs
    exact (ih hcs.1.1).round (ih' hcs.2) hk one separator others hc

/-! ## Programs -/

/-- Behind an omissible token of a program there is at least the period. -/
theorem ReadsProgram.ne_nil_of_omissible {before : Option TokenKind} {behind : TokenKind}
    (h : ReadsProgram p (pre ++ t :: post) ds ns q) (hc : Clean ds)
    (ho : Omissible before t.kind behind cause component) : post ≠ [] := by
  rintro rfl
  generalize hts : pre ++ [t] = ts at h
  cases h with
  | nothing => simp at hts
  | noBlock => simp [diagnostic] at hc
  | block _ root period =>
    rw [clean_append] at hc
    obtain ⟨hdot, rfl, -⟩ := period.clean hc.2 (by simp)
    obtain ⟨-, hlast⟩ := List.append_inj' hts rfl
    rw [List.singleton_inj.1 hlast, current_kind, hdot] at ho
    exact absurd rfl (ho.ne (by decide) : TokenKind.dot ≠ .dot)

/-- **A program is repaired**, as its block is. -/
theorem ReadsProgram.repaired (h : ReadsProgram p (pre ++ t :: post) ds ns q) (hc : Clean ds)
    (hnext : post ++ q.cursor.ahead = next :: more)
    (ho : Omissible (lastKind? pre) t.kind next.kind cause component) (hp : Alike p p')
    (ha : p'.cursor.ahead = pre ++ next :: more) :
    ∃ ds' q', ReadsProgram p' (pre ++ post) ds' ns q' ∧
      OneMore (.on next cause component) ds ds' := by
  have hahead := h.effect.ahead
  generalize hts : pre ++ t :: post = ts at h hahead
  cases h with
  | nothing => simp at hts
  | noBlock => simp [diagnostic] at hc
  | @block q r ts ds ns us es hk root period =>
    rw [clean_append] at hc
    obtain ⟨hdot, rfl, rfl⟩ := period.clean hc.2 (by simp)
    rcases append_eq_append_cons hts.symm with ⟨post, rfl, rfl⟩ | ⟨more, rfl, hmore⟩
    · have hpre := root.ne_nil_of_omissible hc.1 ho
      have hkind : p'.kind = p.kind := by
        rw [kind_eq_nextKind ha, kind_eq_nextKind root.effect.ahead, List.append_assoc,
          nextKind_append hpre, nextKind_append hpre]
      have hperiod := (period.effect (by decide)).ahead
      obtain ⟨ds', q', root', hq', hmore⟩ := root.repaired hc.1 rfl
        (by rw [hperiod, ← hnext, List.append_assoc]) ho hp ha
      have ha' : q'.cursor.ahead = [q.current] ++ q.advance.cursor.ahead :=
        root'.effect.ahead_eq (by rw [ha, ← hnext]; simp)
      obtain ⟨r', period', -⟩ := period.elsewhere hc.2 (by simp) hq' ha'
      have hread := ReadsProgram.block (hkind.trans hk) root' period'
      rw [List.append_assoc] at hread
      exact ⟨_, r', hread, hmore.append_right es⟩
    · -- the gap is not the period
      have ht : t ∈ [q.current] := hmore ▸ List.mem_append_right _ List.mem_cons_self
      rw [List.mem_singleton.1 ht, current_kind, hdot] at ho
      exact absurd rfl (ho.ne (by decide) : TokenKind.dot ≠ .dot)

end Parser

/-! ## Whole parses -/

open PascalBlock.Parser

/-- What stands in front does not change how a list of tokens ends. -/
theorem Cursor.ofTokens_append (ts : List Token) {us : List Token} (h : us ≠ []) (file : String) :
    (Cursor.ofTokens (ts ++ us) file).ahead = ts ++ (Cursor.ofTokens us file).ahead ∧
      (Cursor.ofTokens (ts ++ us) file).last = (Cursor.ofTokens us file).last := by
  obtain ⟨us, t, rfl⟩ := us.eq_nil_or_concat'.resolve_left h
  rw [← List.append_assoc]
  unfold Cursor.ofTokens
  simp only [List.getLast?_concat]
  by_cases hk : t.kind = .endOfText
  · rw [dif_pos hk, dif_pos hk]
    simp
  · rw [dif_neg hk, dif_neg hk]
    simp

/-- **An omitted token is repaired**. A program that is accepted, up to unknown names, gives the same
tree without an omissible token among those that it takes, and the same diagnostics with one more,
which is on the token behind the gap. -/
theorem omitted_token_is_repaired (pre : List Token) (t : Token) (post : List Token) (file : String)
    (cause : Cause) (component : Component)
    (hc : Clean (parse (pre ++ t :: post) file).after.log.entries.toList)
    (ht : pre.length < (consumed (pre ++ t :: post) (parse (pre ++ t :: post) file)).length)
    (ho : Omissible (lastKind? pre) t.kind (nextKind post) cause component) :
    (parse (pre ++ post) file).value = (parse (pre ++ t :: post) file).value ∧
      ∃ next rest, post = next :: rest ∧
        OneMore (.on next cause component)
          (parse (pre ++ t :: post) file).after.log.entries.toList
          (parse (pre ++ post) file).after.log.entries.toList := by
  have hread := readsProgram_parse (pre ++ t :: post) file
  have hahead : (Cursor.ofTokens (pre ++ t :: post) file).ahead =
      consumed (pre ++ t :: post) (parse (pre ++ t :: post) file) ++
        (parse (pre ++ t :: post) file).after.cursor.ahead := hread.effect.ahead
  obtain ⟨taken, hts, hprefix⟩ := eq_append_of_prefix
    (List.IsPrefix.trans ⟨_, hahead.symm⟩ (Cursor.ofTokens_prefix _ file)) ht
  rw [hts] at hread hahead
  obtain ⟨next, taken, rfl⟩ := List.exists_cons_of_ne_nil (hread.ne_nil_of_omissible hc ho)
  obtain ⟨rest, rfl⟩ := hprefix
  -- behind the gap the two lists are the same
  have hne : next :: taken ++ rest ≠ [] := List.cons_ne_nil next (taken ++ rest)
  obtain ⟨hpost, hlast⟩ := Cursor.ofTokens_append (pre ++ [t]) hne file
  obtain ⟨hahead', hlast'⟩ := Cursor.ofTokens_append pre hne file
  rw [List.append_assoc, List.singleton_append] at hpost hlast
  have halike : Alike (ofTokens (pre ++ t :: (next :: taken ++ rest)) file).withStatements
      (ofTokens (pre ++ (next :: taken ++ rest)) file).withStatements :=
    ⟨hlast'.trans hlast.symm, rfl, rfl, rfl⟩
  have hbehind : (Cursor.ofTokens (next :: taken ++ rest) file).ahead =
      next :: taken ++ (parse (pre ++ t :: (next :: taken ++ rest)) file).after.cursor.ahead := by
    have hall := hpost.symm.trans hahead
    rw [List.append_assoc, List.append_assoc] at hall
    exact (List.cons.inj (List.append_cancel_left hall)).2
  rw [hbehind] at hahead'
  obtain ⟨ds', q', hread', hmore⟩ := hread.repaired hc rfl ho halike hahead'
  obtain ⟨-, hlog, hvalue, -⟩ := hread'.unique (readsProgram_parse _ file)
  have hsame := congrArg List.head? hvalue.symm
  rw [Option.head?_toList, Option.head?_toList] at hsame
  exact ⟨hsame, next, taken ++ rest, rfl, hlog ▸ hmore⟩

/-- The tokens of `begin x := (1; y := 2 end.` up to where a parenthesis is missing. -/
def unclosedOne : List Token :=
  [⟨.beginWord, "begin", none, 1, ⟨"", 0⟩, ⟨"", 5⟩⟩, ⟨.identifier, "x", none, 1, ⟨"", 6⟩, ⟨"", 7⟩⟩,
    ⟨.becomes, ":=", none, 1, ⟨"", 8⟩, ⟨"", 10⟩⟩, ⟨.leftParen, "(", none, 1, ⟨"", 11⟩, ⟨"", 12⟩⟩,
    ⟨.integer, "1", some (.integer 1), 1, ⟨"", 12⟩, ⟨"", 13⟩⟩]

/-- The tokens behind the parenthesis. -/
def behindUnclosedOne : List Token :=
  [⟨.semicolon, ";", none, 1, ⟨"", 14⟩, ⟨"", 15⟩⟩, ⟨.identifier, "y", none, 1, ⟨"", 16⟩, ⟨"", 17⟩⟩,
    ⟨.becomes, ":=", none, 1, ⟨"", 18⟩, ⟨"", 20⟩⟩,
    ⟨.integer, "2", some (.integer 2), 1, ⟨"", 21⟩, ⟨"", 22⟩⟩,
    ⟨.endWord, "end", none, 1, ⟨"", 23⟩, ⟨"", 26⟩⟩, ⟨.dot, ".", none, 1, ⟨"", 26⟩, ⟨"", 27⟩⟩]

/-- The parenthesis between them. -/
def closing : Token := ⟨.rightParen, ")", none, 1, ⟨"", 13⟩, ⟨"", 14⟩⟩

theorem unclosedOne_is_repaired :
    (parse (unclosedOne ++ behindUnclosedOne) "").value =
      (parse (unclosedOne ++ closing :: behindUnclosedOne) "").value ∧
    (parse (unclosedOne ++ behindUnclosedOne) "").after.log.entries.toList =
      [.on ⟨.semicolon, ";", none, 1, ⟨"", 14⟩, ⟨"", 15⟩⟩ .missingRightParen .expression] := by
  have hlog : (parse (unclosedOne ++ closing :: behindUnclosedOne) "").after.log.entries.toList =
      [] := by decide +kernel
  have htaken : unclosedOne.length < (consumed (unclosedOne ++ closing :: behindUnclosedOne)
      (parse (unclosedOne ++ closing :: behindUnclosedOne) "")).length := by decide +kernel
  obtain ⟨hvalue, next, rest, hpost, ds₁, ds₂, hds, hlog'⟩ := omitted_token_is_repaired unclosedOne
    closing behindUnclosedOne "" _ _ (hlog ▸ clean_nil) htaken (.rightParen rfl (.inl rfl))
  rw [hlog] at hds
  obtain ⟨rfl, rfl⟩ := List.append_eq_nil_iff.1 hds.symm
  obtain ⟨rfl, -⟩ := List.cons.inj hpost
  exact ⟨hvalue, hlog'⟩

end PascalBlock
