import PascalBlock.Parser.Statement

/-!
# What a reading does to the state

A reading takes tokens from the front of what is ahead and flags diagnostics at the end of the log;
the statements that are known stay as they are. `Effect p ts ds q` says so of the way from `p` to
`q`. The small steps that can fail (`expect`, `separate`, `nested`) are told apart here once, so
that later proofs meet their outcomes and not their definitions.
-/

namespace PascalBlock

namespace Cursor

theorem ahead_eq_cons {c : Cursor} (h : c.kind ≠ .endOfText) :
    c.ahead = c.current :: c.advance.ahead := by
  cases ha : c.ahead with
  | nil =>
    refine absurd ?_ h
    simp [kind, current, ha, c.last_kind]
  | cons t ts => simp [current, advance, ha]

theorem kind_eq {c : Cursor} {ts : List Token} {t : Token} (h : c.ahead = t :: ts) :
    c.kind = t.kind := by
  simp [kind, current, h]

/-- The cursor starts in front of the tokens, up to an end token in the last place. -/
theorem ofTokens_prefix (ts : List Token) (file : String) :
    (ofTokens ts file).ahead <+: ts := by
  unfold ofTokens
  split
  · exact List.nil_prefix
  · split
    · exact List.dropLast_prefix ts
    · exact List.prefix_rfl

theorem ahead_ofTokens (ts : List Token) (file file' : String) :
    (ofTokens ts file).ahead = (ofTokens ts file').ahead := by
  unfold ofTokens
  split
  · rfl
  · split <;> rfl

theorem count_ofTokens (ts : List Token) (file file' : String) :
    (ofTokens ts file).count = (ofTokens ts file').count := by
  rw [count_eq, count_eq, ahead_ofTokens ts file file']

/-- Tokens that end with an end token are ahead up to that one. -/
theorem ofTokens_concat (ts : List Token) {e : Token} (h : e.kind = .endOfText) (file : String) :
    ofTokens (ts ++ [e]) file = ⟨ts, e, ts.length, h, rfl⟩ := by
  unfold ofTokens
  split
  · next hnone => simp at hnone
  · next t ht =>
    rw [List.getLast?_concat] at ht
    obtain rfl := Option.some.inj ht
    simp [h]

/-- The tokens that lie between two places of one text. -/
def upTo (c d : Cursor) : List Token := c.ahead.take (c.count - d.count)

theorem upTo_eq {c d : Cursor} {ts : List Token} (h : c.ahead = ts ++ d.ahead) :
    c.upTo d = ts := by
  have hc := congrArg List.length h
  rw [List.length_append, ← c.count_eq, ← d.count_eq] at hc
  rw [upTo, h, show c.count - d.count = ts.length by omega, List.take_left]

end Cursor

/-- What is flagged on a token. -/
def Diagnostic.on (t : Token) (cause : Cause) (component : Component) : Diagnostic :=
  ⟨⟨cause, t.start⟩, t, component⟩

namespace Parser

variable {p q r : Parser} {ts us : List Token} {ds es : List Diagnostic}

/-- The diagnostic that flagging would add. -/
def diagnostic (p : Parser) (cause : Cause) (component : Component) : Diagnostic :=
  ⟨⟨cause, p.current.start⟩, p.current, component⟩

/-- One level further in. -/
def deeper (p : Parser) : Parser := { p with nesting := p.nesting + 1 }

theorem current_kind (p : Parser) : p.current.kind = p.kind := rfl

@[simp] theorem deeper_cursor (p : Parser) : p.deeper.cursor = p.cursor := rfl
@[simp] theorem deeper_nesting (p : Parser) : p.deeper.nesting = p.nesting + 1 := rfl
@[simp] theorem exitNesting_cursor (p : Parser) : p.exitNesting.cursor = p.cursor := rfl
@[simp] theorem exitNesting_nesting (p : Parser) : p.exitNesting.nesting = p.nesting - 1 := rfl
@[simp] theorem advance_cursor (p : Parser) : p.advance.cursor = p.cursor.advance := rfl
@[simp] theorem advance_nesting (p : Parser) : p.advance.nesting = p.nesting := rfl
@[simp] theorem flag_cursor (p : Parser) (cause : Cause) (component : Component) :
    (p.flag cause component).cursor = p.cursor := rfl
@[simp] theorem flag_kind (p : Parser) (cause : Cause) (component : Component) :
    (p.flag cause component).kind = p.kind := rfl
@[simp] theorem flag_nesting (p : Parser) (cause : Cause) (component : Component) :
    (p.flag cause component).nesting = p.nesting := rfl
@[simp] theorem enter_log (p : Parser) (name : String) : (p.enter name).after.log = p.log := rfl
@[simp] theorem record_log (p : Parser) (e : EntryRef) (line : UInt32) :
    (p.record e line).log = p.log := rfl

/-! ## Effects -/

/-- On the way from `p` to `q` the tokens `ts` were taken and the diagnostics `ds` flagged. -/
structure Effect (p : Parser) (ts : List Token) (ds : List Diagnostic) (q : Parser) : Prop where
  ahead : p.cursor.ahead = ts ++ q.cursor.ahead
  taken : ∀ t ∈ ts, t.kind ≠ .endOfText
  last : q.cursor.last = p.cursor.last
  handlers : q.handlers = p.handlers
  log : q.log.entries.toList = p.log.entries.toList ++ ds

namespace Effect

theorem refl (p : Parser) : Effect p [] [] p := ⟨rfl, by simp, rfl, rfl, by simp⟩

theorem trans (h : Effect p ts ds q) (h' : Effect q us es r) :
    Effect p (ts ++ us) (ds ++ es) r :=
  ⟨by rw [h.ahead, h'.ahead, List.append_assoc],
    fun t ht => (List.mem_append.1 ht).elim (h.taken t) (h'.taken t), h'.last.trans h.last,
    h'.handlers.trans h.handlers, by rw [h'.log, h.log, List.append_assoc]⟩

theorem advance (h : p.kind ≠ .endOfText) : Effect p [p.current] [] p.advance :=
  ⟨Cursor.ahead_eq_cons h, List.forall_mem_singleton.2 h, rfl, rfl, by simp [Parser.advance]⟩

theorem flag (p : Parser) (cause : Cause) (component : Component) :
    Effect p [] [p.diagnostic cause component] (p.flag cause component) :=
  ⟨rfl, by simp, rfl, rfl, by simp [Parser.flag, DiagnosticLog.flag, diagnostic]⟩

theorem deeper (p : Parser) : Effect p [] [] p.deeper :=
  ⟨rfl, by simp, rfl, rfl, by simp [Parser.deeper]⟩

theorem exitNesting (p : Parser) : Effect p [] [] p.exitNesting :=
  ⟨rfl, by simp, rfl, rfl, by simp [Parser.exitNesting]⟩

/-- The current token is taken before anything else happens. -/
theorem cons (hk : p.kind ≠ .endOfText) (h : Effect p.advance ts ds q) :
    Effect p (p.current :: ts) ds q := (advance hk).trans h

/-- As `cons`, one level further in. -/
theorem cons_deeper (hk : p.kind ≠ .endOfText) (h : Effect p.deeper.advance ts ds q) :
    Effect p (p.current :: ts) ds q := (deeper p).trans (cons hk h)

theorem count (h : Effect p ts ds q) : p.cursor.count = ts.length + q.cursor.count := by
  rw [p.cursor.count_eq, q.cursor.count_eq, h.ahead, List.length_append]

theorem ahead_eq (h : Effect p ts ds q) (ha : p.cursor.ahead = ts ++ us) : q.cursor.ahead = us :=
  List.append_cancel_left (h.ahead.symm.trans ha)

end Effect

/-! ## Tokens that have to come -/

/-- `expect` takes the token it wants and flags any other. -/
inductive Expects (kind : TokenKind) (cause : Cause) (component : Component) :
    Parser → List Token → List Diagnostic → Parser → Prop
  | found {p : Parser} (hk : p.kind = kind) :
      Expects kind cause component p [p.current] [] p.advance
  | missing {p : Parser} (hk : p.kind ≠ kind) :
      Expects kind cause component p [] [p.diagnostic cause component] (p.flag cause component)

namespace Expects

variable {kind : TokenKind} {cause : Cause} {component : Component}

theorem expect (p : Parser) (kind : TokenKind) (cause : Cause) (component : Component) :
    ∃ ts ds, Expects kind cause component p ts ds (p.expect kind cause component) := by
  unfold Parser.expect
  by_cases hk : p.kind = kind
  · rw [if_pos hk]; exact ⟨_, _, .found hk⟩
  · rw [if_neg hk]; exact ⟨_, _, .missing hk⟩

theorem taken (h : Expects kind cause component p ts ds q) : ∀ t ∈ ts, t.kind = kind := by
  cases h with
  | found hp => exact List.forall_mem_singleton.2 hp
  | missing => exact List.forall_mem_nil _

theorem effect (h : Expects kind cause component p ts ds q) (hk : kind ≠ .endOfText) :
    Effect p ts ds q := by
  cases h with
  | found hp => exact .advance (hp ▸ hk)
  | missing => exact .flag ..

theorem nesting (h : Expects kind cause component p ts ds q) : q.nesting = p.nesting := by
  cases h <;> rfl

theorem unique (h : Expects kind cause component p ts ds q)
    (h' : Expects kind cause component p us es r) : ts = us ∧ ds = es ∧ q = r := by
  cases h <;> cases h' <;> first | contradiction | exact ⟨rfl, rfl, rfl⟩

end Expects

/-! ## Levels -/

@[simp] theorem advance_levelsLeft (p : Parser) : p.advance.levelsLeft = p.levelsLeft := rfl

theorem levelsLeft_deeper (h : p.nesting < maxNesting) :
    p.levelsLeft = p.deeper.advance.levelsLeft + 1 := by
  simp only [levelsLeft, advance_nesting, deeper_nesting]; omega

section
variable {α : Type} {component : Component} {otherwise : α} {body : Parser → Parsed α}

theorem nested_of_lt (h : p.nesting < maxNesting) :
    p.nested component otherwise body = body p.deeper := by
  simp [nested, enterNesting, h, deeper]

theorem nested_of_le (h : maxNesting ≤ p.nesting) :
    p.nested component otherwise body =
      ⟨otherwise, (p.flag .nestingTooDeep component).advance⟩ := by
  simp [nested, enterNesting, Nat.not_lt.2 h]

end

end Parser

end PascalBlock
