import PascalBlock.Proofs.Parser.Containment
import PascalBlock.Proofs.Parser.Omission

/-!
# One token of lookahead

A reading looks at the tokens that it takes and at the one where it stops, and at nothing behind
that one. Whatever else stands there, the reading is the same (`ReadsOperand.moved`,
`ReadsStatement.moved`, `ReadsProgram.moved`). As no reading takes an end token, a parse stops at
the first one at the latest.
-/

namespace PascalBlock

/-! ## Cursors with further tokens in front -/

namespace Cursor

/-- The tokens, and behind them those of the cursor. -/
def prepend (ts : List Token) (c : Cursor) : Cursor :=
  ⟨ts ++ c.ahead, c.last, ts.length + c.count, c.last_kind, by rw [List.length_append, c.count_eq]⟩

variable {c : Cursor} {t : Token} {ts us : List Token}

@[simp] theorem prepend_nil (c : Cursor) : c.prepend [] = c := eq_of_ahead rfl rfl

@[simp] theorem prepend_append (ts us : List Token) (c : Cursor) :
    c.prepend (ts ++ us) = (c.prepend us).prepend ts := eq_of_ahead (List.append_assoc ..) rfl

@[simp] theorem advance_prepend (t : Token) (ts : List Token) (c : Cursor) :
    (c.prepend (t :: ts)).advance = c.prepend ts := eq_of_ahead rfl rfl

@[simp] theorem current_prepend (t : Token) (ts : List Token) (c : Cursor) :
    (c.prepend (t :: ts)).current = t := rfl

theorem ofTokens_prepend (ts : List Token) {us : List Token} (h : us ≠ []) (file : String) :
    ofTokens (ts ++ us) file = (ofTokens us file).prepend ts :=
  eq_of_ahead (ofTokens_append ts h file).1 (ofTokens_append ts h file).2

/-- The first token of a list is the one under the cursor, also when it is the last. -/
theorem current_ofTokens (t : Token) (ts : List Token) (file : String) :
    (ofTokens (t :: ts) file).current = t := by
  rcases ts.eq_nil_or_concat' with rfl | ⟨us, u, rfl⟩
  · unfold ofTokens current
    by_cases hk : t.kind = .endOfText <;> simp [hk]
  · rw [← List.singleton_append, ofTokens_prepend _ (by simp) file]
    rfl

end Cursor

namespace Parser

variable {p q : Parser} {c : Cursor} {ts : List Token} {ds : List Diagnostic} {ns : List Node}

/-! ## States with the cursor elsewhere -/

/-- The state with other tokens ahead. -/
def moved (p : Parser) (c : Cursor) : Parser := { p with cursor := c }

@[simp] theorem moved_current (p : Parser) (c : Cursor) : (p.moved c).current = c.current := rfl
@[simp] theorem moved_deeper (p : Parser) (c : Cursor) :
    (p.moved c).deeper = p.deeper.moved c := rfl
@[simp] theorem moved_exitNesting (p : Parser) (c : Cursor) :
    (p.moved c).exitNesting = p.exitNesting.moved c := rfl

@[simp] theorem moved_advance (p : Parser) (t : Token) (ts : List Token) (c : Cursor) :
    (p.moved (c.prepend (t :: ts))).advance = p.advance.moved (c.prepend ts) := by
  rw [← Cursor.advance_prepend t ts c]
  rfl

theorem moved_kind_of_current (hc : c.current = p.current) : (p.moved c).kind = p.kind :=
  congrArg Token.kind hc

theorem moved_diagnostic (hc : c.current = p.current) (cause : Cause) (component : Component) :
    (p.moved c).diagnostic cause component = p.diagnostic cause component := by
  simp only [diagnostic, moved, current, hc]

theorem moved_flag (hc : c.current = p.current) (cause : Cause) (component : Component) :
    (p.moved c).flag cause component = (p.flag cause component).moved c := by
  simp only [flag, moved, current, hc]

/-- What the current token names is found in the scopes, which are the same. -/
theorem moved_unknownName (hc : c.current = p.current) :
    (p.moved c).unknownName = p.unknownName := by
  unfold unknownName
  rw [moved_diagnostic hc]
  simp only [moved, current, hc]

/-- In front of the tokens that a reading took, the current token is the one it began at. -/
theorem Effect.current_prepend (h : Effect p ts ds q) (hc : c.current = q.current) :
    (c.prepend ts).current = p.current := by
  cases ts with
  | nil =>
    have hcurrent : q.current = p.current := by
      simp only [current, Cursor.current, h.ahead, h.last, List.nil_append]
    rw [Cursor.prepend_nil, hc, hcurrent]
  | cons t ts => rw [Cursor.current_prepend, current_eq h.ahead]

theorem resolve_moved (hc : c.current = p.current) (known : Bool) (name : String) :
    (p.moved c).resolve known name =
      ⟨(p.resolve known name).value, (p.resolve known name).after.moved c⟩ := by
  have hscopes : (p.moved c).scopes = p.scopes := rfl
  unfold resolve
  rw [hscopes]
  cases p.scopes.lookup? name with
  | some e => rfl
  | none =>
    cases known with
    | false => rfl
    | true =>
      rw [if_pos rfl, if_pos rfl, moved_flag hc]
      rfl

theorem identifier_moved (hc : c.current = p.current) (known : Bool) :
    identifier known (p.moved c) =
      ⟨(identifier known p).value, (identifier known p).after.moved c.advance⟩ := by
  unfold identifier
  rw [moved_current, hc, resolve_moved hc]
  rfl

theorem constant_moved (hc : c.current = p.current) (kind : NodeKind) :
    (constant kind (p.moved c)).value = (constant kind p).value := by
  simp only [constant_value, moved, current, hc]

theorem Expects.moved {kind : TokenKind} {cause : Cause} {component : Component}
    (h : Expects kind cause component p ts ds q) (hc : c.current = q.current) :
    Expects kind cause component (p.moved (c.prepend ts)) ts ds (q.moved c) := by
  cases h with
  | found hk =>
    have hread := @Expects.found kind cause component (p.moved (c.prepend [p.current])) hk
    simpa using hread
  | missing hk =>
    have hcurrent : c.current = p.current := hc
    have hread := @Expects.missing kind cause component (p.moved c)
      (moved_kind_of_current hcurrent ▸ hk)
    rw [moved_diagnostic hcurrent, moved_flag hcurrent] at hread
    rwa [Cursor.prepend_nil]

/-! ## Expressions -/

/-- **An expression is read alike with other tokens behind it**. -/
theorem ReadsOperand.moved {phrase : Phrase} (h : ReadsOperand phrase p ts ds ns q) :
    ∀ {c : Cursor}, c.current = q.current →
      ReadsOperand phrase (p.moved (c.prepend ts)) ts ds ns (q.moved c) := by
  induction h with
  | @identifier p hk =>
    intro c _
    have hcurrent : (c.prepend [p.current]).current = p.current := rfl
    have hread := ReadsOperand.identifier (p := p.moved (c.prepend [p.current])) hk
    rw [identifier_moved hcurrent, moved_unknownName hcurrent] at hread
    simpa using hread
  | @constant p kind hk =>
    intro c _
    have hcurrent : (c.prepend [p.current]).current = p.current := rfl
    have hread := ReadsOperand.constant (p := p.moved (c.prepend [p.current])) hk
    rw [constant_moved hcurrent] at hread
    simpa using hread
  | @tooDeep p hk hn =>
    intro c _
    have hcurrent : (c.prepend [p.current]).current = p.current := rfl
    have hread := ReadsOperand.tooDeep (p := p.moved (c.prepend [p.current])) hk hn
    rw [moved_diagnostic hcurrent, moved_flag hcurrent] at hread
    simpa using hread
  | @unexpected p hk =>
    intro c hc
    have hcurrent : c.current = p.current := hc
    have hread := ReadsOperand.unexpected (p := p.moved c)
      (by rwa [moved_kind_of_current hcurrent])
    rw [moved_diagnostic hcurrent, flagUnexpected, moved_flag hcurrent, moved_current,
      hcurrent] at hread
    rwa [Cursor.prepend_nil]
  | @negation p q ts ds ns hk hn _ ih =>
    intro c hc
    have hread := ReadsOperand.negation (p := p.moved (c.prepend (p.current :: ts))) hk hn
      (by simpa using ih hc)
    simpa using hread
  | @parentheses p q r ts ds ns us es hk hn inner close ih =>
    intro c hc
    have hr := (close.effect (by decide)).current_prepend hc
    have hclose := close.moved hc
    have hread := ReadsOperand.parentheses (p := p.moved (c.prepend (p.current :: ts ++ us)))
      (q := q.moved (c.prepend us)) hk hn (by simpa using ih hr) hclose
    simpa using hread
  | @plus p q ts ds ns hk _ ih =>
    intro c hc
    have hread := ReadsOperand.plus (p := p.moved (c.prepend (p.current :: ts))) hk
      (by simpa using ih hc)
    simpa using hread
  | @minus p q ts ds ns hk _ ih =>
    intro c hc
    have hread := ReadsOperand.minus (p := p.moved (c.prepend (p.current :: ts))) hk
      (by simpa using ih hc)
    simpa using hread
  | unsigned hplus hminus term ih =>
    intro c hc
    have hkind := moved_kind_of_current (term.effect.current_prepend hc)
    exact .unsigned (by rwa [hkind]) (by rwa [hkind]) (ih hc)
  | @chain s p q r ts ds ls us es ns _ rest ih ih' =>
    intro c hc
    have hread := ReadsOperand.chain (ih (rest.effect.current_prepend hc)) (ih' hc)
    simpa using hread
  | stop hk =>
    intro c hc
    rw [Cursor.prepend_nil]
    exact .stop (by rwa [moved_kind_of_current hc])
  | @link s op p q r ls ts ds rs us es ns hk _ rest ih ih' =>
    intro c hc
    have hright := ih (rest.effect.current_prepend hc)
    have hread := ReadsOperand.link (p := p.moved (c.prepend (p.current :: ts ++ us))) hk
      (by simpa using hright) (ih' hc)
    simpa using hread
  | simple _ hk ih =>
    intro c hc
    exact .simple (ih hc) (by rwa [moved_kind_of_current hc])
  | @relation op p q r ts ds ls us es rs _ hk right ih ih' =>
    intro c hc
    have hleft := ih (c := c.prepend (q.current :: us)) rfl
    have hop : (q.moved (c.prepend (q.current :: us))).kind.relational? = some op := hk
    have hread := ReadsOperand.relation hleft hop (by simpa using ih' hc)
    simpa using hread

/-! ## Statements and programs -/

theorem moved_startLine (hc : c.current = p.current) : (p.moved c).startLine = p.startLine := by
  simp only [startLine, moved_current, hc]

theorem Separates.moved (h : Separates p ts ds q) (hc : c.current = q.current) :
    Separates (p.moved (c.prepend ts)) ts ds (q.moved c) := by
  cases h with
  | semicolon hk =>
    have hread := Separates.semicolon (p := p.moved (c.prepend [p.current])) hk
    simpa using hread
  | missing hk =>
    have hcurrent : c.current = p.current := hc
    have hread := Separates.missing (p := p.moved c) (by rwa [moved_kind_of_current hcurrent])
    rw [moved_diagnostic hcurrent, moved_flag hcurrent] at hread
    rwa [Cursor.prepend_nil]
  | closing hk =>
    rw [Cursor.prepend_nil]
    exact .closing (by rwa [moved_kind_of_current hc])
  | stray hs hi hk =>
    have hcurrent : (c.prepend [p.current]).current = p.current := rfl
    have hread := Separates.stray (p := p.moved (c.prepend [p.current])) hs hi hk
    rw [moved_diagnostic hcurrent, flagUnexpected, moved_flag hcurrent] at hread
    simpa [flagUnexpected] using hread

/-- **A statement is read alike with other tokens behind it**. -/
theorem ReadsStatement.moved {clause : Clause} (h : ReadsStatement clause p ts ds ns q) :
    ∀ {c : Cursor}, c.current = q.current →
      ReadsStatement clause (p.moved (c.prepend ts)) ts ds ns (q.moved c) := by
  induction h with
  | @assignment p q r ts ds us es ns hk sign value =>
    intro c hc
    have hcurrent : (c.prepend (p.current :: ts ++ us)).current = p.current := rfl
    have htarget := identifier_moved hcurrent false
    have hsign := sign.moved (value.effect.current_prepend hc)
    have hread := ReadsStatement.assignment (p := p.moved (c.prepend (p.current :: ts ++ us)))
      (q := q.moved (c.prepend us)) hk (by rw [htarget]; simpa using hsign) (value.moved hc)
    rw [htarget, moved_startLine hcurrent] at hread
    simpa using hread
  | @tooDeep p hk hn =>
    intro c _
    have hcurrent : (c.prepend [p.current]).current = p.current := rfl
    have hread := ReadsStatement.tooDeep (p := p.moved (c.prepend [p.current])) hk hn
    rw [moved_diagnostic hcurrent, moved_flag hcurrent, moved_startLine hcurrent] at hread
    simpa using hread
  | @compound p q r ts ds ns us es hk hn _ close ih =>
    intro c hc
    have hcurrent : (c.prepend (p.current :: ts ++ us)).current = p.current := rfl
    have hbody := ih ((close.effect (by decide)).current_prepend hc)
    have hread := ReadsStatement.compound (p := p.moved (c.prepend (p.current :: ts ++ us)))
      (q := q.moved (c.prepend us)) hk hn (by simpa using hbody) (close.moved hc)
    rw [moved_startLine hcurrent] at hread
    simpa using hread
  | @empty p hb hi =>
    intro c hc
    have hkind := moved_kind_of_current hc
    have hread := ReadsStatement.empty (p := p.moved c) (by rwa [hkind]) (by rwa [hkind])
    rw [moved_startLine hc] at hread
    rwa [Cursor.prepend_nil]
  | finish hk =>
    intro c hc
    rw [Cursor.prepend_nil]
    exact .finish (by rwa [moved_kind_of_current hc])
  | @round p q r r' ts ds ns us es vs fs ms hk one separator rest ih ih' =>
    intro c hc
    have hr := rest.effect.current_prepend hc
    have hq := separator.effect.current_prepend hr
    have hkind := moved_kind_of_current (one.effect.current_prepend hq)
    have hread := ReadsStatement.round (by rwa [hkind]) (ih hq) (separator.moved hr) (ih' hc)
    simpa using hread

/-- **A program is read alike with other tokens behind it**. -/
theorem ReadsProgram.moved (h : ReadsProgram p ts ds ns q) (hc : c.current = q.current) :
    ReadsProgram (p.moved (c.prepend ts)) ts ds ns (q.moved c) := by
  cases h with
  | nothing hk =>
    rw [Cursor.prepend_nil]
    exact .nothing (by rwa [moved_kind_of_current hc])
  | @block q r ts ds ns us es hk root period =>
    have hq := (period.effect (by decide)).current_prepend hc
    have hkind := moved_kind_of_current (root.effect.current_prepend hq)
    have hread := ReadsProgram.block (by rwa [hkind]) (root.moved hq) (period.moved hc)
    simpa using hread
  | @noBlock q us es hk hb period =>
    have hcurrent : (c.prepend ts).current = p.current :=
      (period.effect (by decide)).current_prepend hc
    have hkind := moved_kind_of_current hcurrent
    have hflag : (p.moved (c.prepend ts)).flagUnexpected .program =
        (p.flagUnexpected .program).moved (c.prepend ts) := by
      rw [flagUnexpected, moved_flag hcurrent, moved_current, hcurrent, flagUnexpected]
    have hread := ReadsProgram.noBlock (p := p.moved (c.prepend ts)) (by rwa [hkind])
      (by rwa [hkind]) (hflag ▸ period.moved hc)
    rwa [moved_diagnostic hcurrent, moved_current, hcurrent] at hread

end Parser

/-! ## Whole parses -/

open PascalBlock.Parser

/-- The place in the list of tokens at which a parse stopped. -/
def stoppedAt (tokens : List Token) (parsed : Parsed (Option Node)) : Nat :=
  (Cursor.ofTokens tokens "").count - parsed.after.cursor.count

/-- The parse stops at the first end token at the latest, and with any tokens behind the one where
it stops it gives the same tree, diagnostics and scopes and stops at the same place. -/
structure LooksOneAhead (read : List Token → Parsed (Option Node)) (tokens : List Token) :
    Prop where
  stops : stoppedAt tokens (read tokens) ≤ tokens.findIdx (·.kind == .endOfText)
  same : ∀ others : List Token,
    others.take (stoppedAt tokens (read tokens) + 1) =
      tokens.take (stoppedAt tokens (read tokens) + 1) →
    (read others).value = (read tokens).value ∧
      (read others).after.log = (read tokens).after.log ∧
      (read others).after.scopes = (read tokens).after.scopes ∧
      stoppedAt others (read others) = stoppedAt tokens (read tokens)

theorem stoppedAt_eq {tokens ts : List Token} {file : String} {ds : List Diagnostic}
    {parsed : Parsed (Option Node)}
    (h : Effect (ofTokens tokens file).withStatements ts ds parsed.after) :
    stoppedAt tokens parsed = ts.length := by
  have hcount : (Cursor.ofTokens tokens file).count = ts.length + parsed.after.cursor.count :=
    h.count
  rw [stoppedAt, Cursor.count_ofTokens tokens "" file, hcount, Nat.add_sub_cancel]

/-- Behind the tokens that were taken stands the one where the reading stopped. -/
theorem exists_eq_append_current {front ts : List Token} {last : Token} {file : String}
    {ds : List Diagnostic} {q : Parser} (hlast : last.kind = .endOfText)
    (h : Effect (ofTokens (front ++ [last]) file).withStatements ts ds q) :
    ∃ rest, front ++ [last] = ts ++ q.current :: rest := by
  have hstart : Cursor.ofTokens (front ++ [last]) file =
      (Cursor.ofTokens [last] file).prepend front :=
    Cursor.ofTokens_prepend front (List.cons_ne_nil _ _) file
  have hsingle : Cursor.ofTokens [last] file = ⟨[], last, 0, hlast, rfl⟩ := by
    simp [Cursor.ofTokens, hlast]
  have hfront : front = ts ++ q.cursor.ahead := by
    have hahead : (Cursor.ofTokens (front ++ [last]) file).ahead = ts ++ q.cursor.ahead := h.ahead
    rw [hstart, hsingle] at hahead
    simpa [Cursor.prepend] using hahead
  have hend : q.cursor.last = last := by
    have hkept : q.cursor.last = (Cursor.ofTokens (front ++ [last]) file).last := h.last
    rw [hkept, hstart, hsingle]
    rfl
  rw [hfront, List.append_assoc, current, Cursor.current, hend]
  cases q.cursor.ahead with
  | nil => exact ⟨[], rfl⟩
  | cons t rest => exact ⟨rest ++ [last], rfl⟩

theorem exists_eq_append_of_take {ts us : List Token} {t : Token}
    (h : us.take (ts.length + 1) = ts ++ [t]) : ∃ more, us = ts ++ t :: more := by
  refine ⟨us.drop (ts.length + 1), ?_⟩
  calc us = us.take (ts.length + 1) ++ us.drop (ts.length + 1) := (List.take_append_drop ..).symm
    _ = ts ++ t :: us.drop (ts.length + 1) := by
        rw [h, List.append_assoc, List.singleton_append]

/-- Rules that see one token ahead, take no end token and leave no choice are read with one token of
lookahead. -/
theorem looksOneAhead_of_reads
    (Reads : Parser → List Token → List Diagnostic → List Node → Parser → Prop)
    {read : List Token → Parsed (Option Node)} {file : String}
    (hread : ∀ tokens, ∃ ts ds, Reads (ofTokens tokens file).withStatements ts ds
      (read tokens).value.toList (read tokens).after)
    (heffect : ∀ {p ts ds ns q}, Reads p ts ds ns q → Effect p ts ds q)
    (hmoved : ∀ {p ts ds ns q} {c : Cursor}, Reads p ts ds ns q → c.current = q.current →
      Reads (p.moved (c.prepend ts)) ts ds ns (q.moved c))
    (hunique : ∀ {p ts ds ns q us es ms r}, Reads p ts ds ns q → Reads p us es ms r →
      ns = ms ∧ q = r)
    (front : List Token) {last : Token} (hlast : last.kind = .endOfText) :
    LooksOneAhead read (front ++ [last]) := by
  obtain ⟨ts, ds, h⟩ := hread (front ++ [last])
  obtain ⟨rest, htokens⟩ := exists_eq_append_current hlast (heffect h)
  have hstop := stoppedAt_eq (heffect h)
  generalize ht : (read (front ++ [last])).after.current = t at htokens
  constructor
  · have hnone : ts.findIdx (·.kind == .endOfText) = ts.length :=
      List.findIdx_eq_length.2 fun t ht => by simpa using (heffect h).taken t ht
    rw [hstop, htokens, List.findIdx_append]
    simp [hnone]
  · intro others hothers
    have htake : (ts ++ t :: rest).take (ts.length + 1) = ts ++ [t] := by simp [List.take_append]
    rw [hstop, htokens, htake] at hothers
    obtain ⟨more, rfl⟩ := exists_eq_append_of_take hothers
    obtain ⟨us, es, h'⟩ := hread (ts ++ t :: more)
    -- the other parse begins where the first one does, up to the tokens behind `t`
    have hcurrent : (Cursor.ofTokens (t :: more) file).current =
        (read (front ++ [last])).after.current :=
      (Cursor.current_ofTokens t more file).trans ht.symm
    have hsame := hmoved h hcurrent
    have hbegin : (ofTokens (front ++ [last]) file).withStatements.moved
        ((Cursor.ofTokens (t :: more) file).prepend ts) =
          (ofTokens (ts ++ t :: more) file).withStatements := by
      rw [← Cursor.ofTokens_prepend ts (List.cons_ne_nil _ _) file]
      rfl
    rw [hbegin] at hsame
    obtain ⟨hvalue, hafter⟩ := hunique h' hsame
    have hvalue := congrArg List.head? hvalue
    rw [Option.head?_toList, Option.head?_toList] at hvalue
    refine ⟨hvalue, by rw [hafter]; rfl, by rw [hafter]; rfl, ?_⟩
    rw [hstop, stoppedAt_eq (hafter ▸ heffect hsame)]

/-- **No parse looks further than one token ahead, and none goes past an end token**. -/
theorem parses_look_one_ahead (front : List Token) (last : Token) (hlast : last.kind = .endOfText)
    (file : String) :
    LooksOneAhead (parse · file) (front ++ [last]) ∧
      LooksOneAhead (parseExpression · file) (front ++ [last]) := by
  constructor
  · refine looksOneAhead_of_reads ReadsProgram
      (fun tokens => ⟨_, _, readsProgram_parse tokens file⟩) ReadsProgram.effect
      ReadsProgram.moved (fun h h' => ?_) front hlast
    obtain ⟨-, -, hns, hq⟩ := h.unique h'
    exact ⟨hns, hq⟩
  · refine looksOneAhead_of_reads (ReadsOperand .expression)
      (fun tokens => ⟨_, _, readsOperand_parseExpression tokens file⟩) ReadsOperand.effect
      (fun h hc => h.moved hc) (fun h h' => ?_) front hlast
    obtain ⟨-, -, hns, hq⟩ := h.unique h'
    exact ⟨hns, hq⟩

/-- The tokens of `begin end.` with an end token and a name behind them. -/
def emptyBlock : List Token :=
  [⟨.beginWord, "begin", none, 1, ⟨"", 0⟩, ⟨"", 5⟩⟩, ⟨.endWord, "end", none, 1, ⟨"", 6⟩, ⟨"", 9⟩⟩,
    ⟨.dot, ".", none, 1, ⟨"", 9⟩, ⟨"", 10⟩⟩,
    .endAt 1 ⟨"", 10⟩, ⟨.identifier, "x", none, 2, ⟨"", 11⟩, ⟨"", 12⟩⟩]

/-- Behind the end token there may as well be anything else. -/
theorem emptyBlock_looks_one_ahead :
    (Token.endAt 2 ⟨"", 12⟩).kind = .endOfText ∧
      LooksOneAhead (parse · "") (emptyBlock ++ [.endAt 2 ⟨"", 12⟩]) ∧
      ∀ more, (parse (emptyBlock.take 4 ++ more) "").value =
        (parse (emptyBlock ++ [.endAt 2 ⟨"", 12⟩]) "").value := by
  obtain ⟨hprogram, -⟩ := parses_look_one_ahead emptyBlock (.endAt 2 ⟨"", 12⟩) rfl ""
  refine ⟨rfl, hprogram, fun more => ?_⟩
  have hstop : stoppedAt (emptyBlock ++ [.endAt 2 ⟨"", 12⟩])
      (parse (emptyBlock ++ [.endAt 2 ⟨"", 12⟩]) "") = 3 := by decide +kernel
  exact (hprogram.same (emptyBlock.take 4 ++ more) (by rw [hstop]; rfl)).1

end PascalBlock
