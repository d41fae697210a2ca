import PascalBlock.Proofs.Parser.Acceptance

/-!
# What lies too deep

Where a derivation opens more levels than there are left, a reading along it runs out of them, and
that is flagged (`runsOut_of_opens`, `runsOut_of_opensBlock`). Up to the place where it happens the
reading is the clean one, so the place is the same for every reading. Main result: a parse flags a
program as nested too deep exactly when the program opens more levels than a parse allows.
-/

namespace PascalBlock

open Grammar

/-- Something is flagged as nested too deep. -/
def TooDeep (ds : List Diagnostic) : Prop := ∃ d ∈ ds, d.error.cause = .nestingTooDeep

@[simp] theorem tooDeep_nil : ¬ TooDeep [] := by simp [TooDeep]

@[simp] theorem tooDeep_cons {d : Diagnostic} {ds : List Diagnostic} :
    TooDeep (d :: ds) ↔ d.error.cause = .nestingTooDeep ∨ TooDeep ds := by simp [TooDeep]

@[simp] theorem tooDeep_append {ds es : List Diagnostic} :
    TooDeep (ds ++ es) ↔ TooDeep ds ∨ TooDeep es := by simp [TooDeep, or_and_right, exists_or]

theorem Clean.not_tooDeep {ds : List Diagnostic} (h : Clean ds) : ¬ TooDeep ds := by
  rintro ⟨d, hd, hdeep⟩
  obtain ⟨name, hname⟩ := h d hd
  cases hdeep.symm.trans hname

namespace Parser

variable {p q : Parser} {n : Nat} {ts us rest : List Token} {ds : List Diagnostic}
  {ns : List Node} {o : Outline}

/-! ## Expressions -/

/-- To read the phrase here takes more levels than there are left. -/
def RunsOut (phrase : Phrase) (p : Parser) : Prop :=
  ∀ ⦃ts ds ns q⦄, ReadsOperand phrase p ts ds ns q → TooDeep ds

/-- What the tokens of a nonterminal are read as. -/
def phraseOf : Nonterminal → Phrase
  | .factor => .factor
  | .term => .chain .multiplicative
  | .simpleExpression => .chain .additive
  | .expression => .expression

theorem RunsOut.chain {s : Strength} (h : RunsOut s.first p) : RunsOut (.chain s) p := by
  intro _ _ _ _ hp
  cases hp with
  | chain first rest => exact tooDeep_append.2 (.inl (h first))

/-- A chain goes on with something, whatever stands to its left. -/
theorem exists_links (s : Strength) (left : Option Node) (p : Parser) :
    ∃ ts ds ns q, ReadsOperand (.links s left.toList) p ts ds ns q := by
  have hfactor := reading_factorAt p.levelsLeft
  cases s with
  | multiplicative =>
    obtain ⟨ts, ds, h⟩ := reading_links (s := .multiplicative) hfactor _ left p rfl (Nat.le_refl _)
    exact ⟨ts, ds, _, _, h⟩
  | additive =>
    obtain ⟨ts, ds, h⟩ := reading_links (s := .additive) (reading_termWith hfactor) _ left p rfl
      (Nat.le_refl _)
    exact ⟨ts, ds, _, _, h⟩

/-- Behind a clean beginning of a chain the operand to the right runs out. -/
theorem ChainsAs.runsOut {s : Strength} {op : NodeKind} {t : Token} (h : ChainsAs s p ts o q)
    (ha : p.cursor.ahead = ts ++ t :: rest) (ht : Operator s.precedence t.kind op)
    (hright : ∀ {r : Parser}, r.cursor.ahead = rest → r.levelsLeft = p.levelsLeft →
      RunsOut s.operand r) : RunsOut (.chain s) p := by
  have hahead := h.ahead ha
  have hq := hright (advance_ahead hahead) h.levelsLeft
  obtain rfl := current_eq hahead
  obtain ⟨ds, ls, -, -, -, ho, hlinks⟩ := h
  obtain ⟨left, rfl, -⟩ := List.map_eq_singleton_iff.1 ho
  obtain ⟨_, _, _, _, hrest⟩ := exists_links s (some left) q
  intro _ _ _ _ hp
  obtain ⟨-, rfl, -⟩ := hp.unique (hlinks hrest)
  cases hrest with
  | stop hk => cases hk.symm.trans (operator?_eq_some.2 ht)
  | link _ right _ => exact tooDeep_append.2 (.inr (tooDeep_append.2 (.inl (hq right))))

theorem RunsOut.unsigned (h : RunsOut (.chain .multiplicative) p) (hs : startsFactor p.kind) :
    RunsOut .signed p := by
  intro _ _ _ _ hp
  cases hp with
  | plus hk => exact absurd hk (not_sign_of_startsFactor hs).1
  | minus hk => exact absurd hk (not_sign_of_startsFactor hs).2
  | unsigned _ _ term => exact h term

theorem RunsOut.expression (h : RunsOut (.chain .additive) p) : RunsOut .expression p := by
  intro _ _ _ _ hp
  cases hp with
  | simple left => exact h left
  | relation left => exact tooDeep_append.2 (.inl (h left))

/-- Behind a clean left side of a relation the right side runs out. -/
theorem ReadsAs.runsOut {op : NodeKind} {t : Token} (h : ReadsAs (.chain .additive) p ts o q)
    (ha : p.cursor.ahead = ts ++ t :: rest) (ht : Operator .relational t.kind op)
    (hright : ∀ {r : Parser}, r.cursor.ahead = rest → r.levelsLeft = p.levelsLeft →
      RunsOut (.chain .additive) r) : RunsOut .expression p := by
  have hahead := h.ahead ha
  obtain ⟨_, _, hread, -⟩ := h
  have hq := hright (advance_ahead hahead) hread.levelsLeft
  obtain rfl := current_eq hahead
  intro _ _ _ _ hp
  cases hp with
  | simple left hk =>
    obtain ⟨-, -, -, rfl⟩ := left.unique hread
    cases hk.symm.trans (relational?_eq_some.2 ht)
  | relation left _ right =>
    obtain ⟨-, -, -, rfl⟩ := left.unique hread
    exact tooDeep_append.2 (.inr (hq right))

/-- **An expression that opens more levels than are left runs out of them**. -/
theorem runsOut_of_opens {symbol : Nonterminal} (h : Opens symbol n ts o) :
    ∀ {p rest}, p.cursor.ahead = ts ++ rest → p.levelsLeft < n → RunsOut (phraseOf symbol) p := by
  induction h with
  | operand => exact fun _ hl => absurd hl (Nat.not_lt_zero _)
  | @negation n t ts _ ht _ ih =>
    intro p rest ha hl _ _ _ _ hp
    have hk : p.kind = .notWord := (kind_eq_nextKind ha).trans ht
    have ha' : p.deeper.advance.cursor.ahead = ts ++ rest := advance_ahead ha
    cases hp with
    | tooDeep => simp [diagnostic]
    | negation _ hn inner =>
      rw [levelsLeft_deeper hn] at hl
      exact ih ha' (Nat.lt_of_succ_lt_succ hl) inner
    | _ => grind [constantKind?, startsFactor, opensLevel]
  | @parentheses n l r ts _ hleft _ _ ih =>
    intro p rest ha hl _ _ _ _ hp
    rw [List.append_assoc, List.cons_append] at ha
    have hk : p.kind = .leftParen := (kind_eq_nextKind ha).trans hleft
    have ha' : p.deeper.advance.cursor.ahead = ts ++ ([r] ++ rest) := advance_ahead ha
    cases hp with
    | tooDeep => simp [diagnostic]
    | parentheses _ hn inner _ =>
      rw [levelsLeft_deeper hn] at hl
      exact tooDeep_append.2 (.inl (ih ha' (Nat.lt_of_succ_lt_succ hl) inner))
    | _ => grind [constantKind?, startsFactor, opensLevel]
  | factor _ ih => exact fun ha hl => RunsOut.chain (s := .multiplicative) (ih ha hl)
  | @product n m t op ts us _ _ left ht _ ih ih' =>
    intro p rest ha hl
    rw [List.append_assoc, List.cons_append] at ha
    rcases Nat.lt_or_ge p.levelsLeft n with hn | hn
    · exact ih ha hn
    · obtain ⟨q, hq⟩ := readable_of_derives (left.derives.mono hn) p _ rfl ha
      exact hq.runsOut ha ht fun ha' hl' => ih' ha' (by omega)
  | term h ih =>
    intro p rest ha hl
    obtain ⟨t, us, rfl, hstart⟩ := startsFactor_of_derives h.derives
    have hs : startsFactor p.kind := kind_eq_nextKind ha ▸ hstart (.inr rfl)
    exact RunsOut.chain (s := .additive) (RunsOut.unsigned (ih ha hl) hs)
  | plus ht _ ih =>
    intro p rest ha hl
    refine RunsOut.chain (s := .additive) fun _ _ _ _ hp => ?_
    have hk : p.kind = .plus := (kind_eq_nextKind ha).trans ht
    cases hp with
    | plus _ term => exact ih (advance_ahead ha) hl term
    | _ => grind
  | minus ht _ ih =>
    intro p rest ha hl
    refine RunsOut.chain (s := .additive) fun _ _ _ _ hp => ?_
    have hk : p.kind = .minus := (kind_eq_nextKind ha).trans ht
    cases hp with
    | minus _ term => exact ih (advance_ahead ha) hl term
    | _ => grind
  | @sum n m t op ts us _ _ left ht _ ih ih' =>
    intro p rest ha hl
    rw [List.append_assoc, List.cons_append] at ha
    rcases Nat.lt_or_ge p.levelsLeft n with hn | hn
    · exact ih ha hn
    · obtain ⟨q, hq⟩ := readable_of_derives (left.derives.mono hn) p _ rfl ha
        (ends_of_operator ht (by decide))
      exact hq.runsOut ha ht fun ha' hl' => ih' ha' (by omega)
  | simple _ ih => exact fun ha hl => RunsOut.expression (ih ha hl)
  | @relation n m t op ts us _ _ left ht _ ih ih' =>
    intro p rest ha hl
    rw [List.append_assoc, List.cons_append] at ha
    rcases Nat.lt_or_ge p.levelsLeft n with hn | hn
    · exact RunsOut.expression (ih ha hn)
    · obtain ⟨q, hq⟩ := readable_of_derives (left.derives.mono hn) p _ rfl ha
        (ends_of_operator ht (by decide))
      have hleft := hq.stop ha (ends_of_operator ht (by decide))
      exact hleft.runsOut ha ht fun ha' hl' => ih' ha' (by omega)

/-! ## Statements and programs -/

/-- As `RunsOut`, for a clause. -/
def ClauseRunsOut (clause : Clause) (p : Parser) : Prop :=
  ∀ ⦃ts ds ns q⦄, ReadsStatement clause p ts ds ns q → TooDeep ds

def clauseOf : Block → Clause
  | .compound | .statement => .statement
  | .statements => .statements

/-- **A block that opens more levels than are left runs out of them**. -/
theorem runsOut_of_opensBlock {symbol : Block} {os : List Outline}
    (h : OpensBlock symbol n ts os) :
    ∀ {p rest}, p.cursor.ahead = ts ++ rest → p.levelsLeft < n →
      ClauseRunsOut (clauseOf symbol) p := by
  induction h with
  | @compound n b e ts _ hb _ _ ih =>
    intro p rest ha hl _ _ _ _ hp
    rw [List.append_assoc, List.cons_append] at ha
    have hk : p.kind = .beginWord := (kind_eq_nextKind ha).trans hb
    have ha' : p.deeper.advance.cursor.ahead = ts ++ ([e] ++ rest) := advance_ahead ha
    cases hp with
    | tooDeep => simp [diagnostic]
    | compound _ hn body _ =>
      rw [levelsLeft_deeper hn] at hl
      exact tooDeep_append.2 (.inl (ih ha' (Nat.lt_of_succ_lt_succ hl) body))
    | _ => grind
  | block _ ih => exact ih
  | @assignment n t s us _ ht hs value =>
    intro p rest ha hl _ _ _ _ hp
    have hk : p.kind = .identifier := (kind_eq_nextKind ha).trans ht
    have ha' : (identifier false p).after.cursor.ahead = s :: (us ++ rest) := by
      rw [identifier_cursor]
      exact advance_ahead ha
    cases hp with
    | assignment _ sign expression =>
      cases sign with
      | missing hne => exact absurd ((kind_eq_nextKind ha').trans hs) hne
      | found =>
        refine tooDeep_append.2 (.inr (runsOut_of_opens value (advance_ahead ha') ?_ expression))
        simp only [levelsLeft, advance_nesting, identifier_nesting] at hl ⊢
        exact hl
    | _ => grind
  | empty | lastEmpty => exact fun _ hl => absurd hl (Nat.not_lt_zero _)
  | last h hts ih =>
    intro p rest ha hl _ _ _ _ hp
    have hk := kind_statement h.derives hts ha
    cases hp with
    | finish hend => grind
    | round _ one _ _ => simp [ih ha hl one]
  | @next n m s ts _ us _ h hs _ ih ih' =>
    intro p rest ha hl _ _ _ _ hp
    rw [List.append_assoc, List.cons_append] at ha
    have hk := kind_next h.derives hs ha
    cases hp with
    | finish hend => grind
    | round _ one separator others =>
      rcases Nat.lt_or_ge p.levelsLeft n with hn | hn
      · simp [ih ha hn one]
      · obtain ⟨q, _, _, hread, -⟩ := readable_of_derivesBlock (h.derives.mono hn) p _ rfl ha
          (.inl hs)
        obtain ⟨-, -, -, rfl⟩ := one.unique hread
        have hahead := hread.effect.ahead_eq ha
        have hq := (kind_eq_nextKind hahead).trans hs
        cases separator with
        | semicolon =>
          refine tooDeep_append.2 (.inr (ih' (advance_ahead hahead) ?_ others))
          simp only [levelsLeft, advance_nesting, hread.nesting] at hl hn ⊢
          omega
        | _ => grind

/-- **A program that opens more levels than are left runs out of them**. -/
theorem runsOut_of_opensProgram (h : OpensProgram n ts o) (ha : p.cursor.ahead = ts ++ rest)
    (hl : p.levelsLeft < n) (hp : ReadsProgram p us ds ns q) : TooDeep ds := by
  cases h with
  | @program d ts _ block hd =>
    have hk : p.kind = .beginWord := by
      cases block with
      | compound hb => exact (kind_eq_nextKind ha).trans hb
    rw [List.append_assoc] at ha
    cases hp with
    | block _ root _ => exact tooDeep_append.2 (.inl (runsOut_of_opensBlock block ha hl root))
    | _ => grind

end Parser

/-! ## Whole parses -/

open PascalBlock.Parser

/-- **A parse flags as nested too deep what opens more levels than it allows**, and nothing else. -/
theorem tooDeep_parse_iff {tokens ts more : List Token} {n : Nat} {o : Outline} (file : String)
    (ha : (Cursor.ofTokens tokens file).ahead = ts ++ more) (h : OpensProgram n ts o) :
    TooDeep (parse tokens file).after.log.entries.toList ↔ maxNesting < n := by
  constructor
  · intro hdeep
    refine Nat.lt_of_not_le fun hn => ?_
    exact (parse_of_derivesProgram tokens file ha (h.derives hn)).1.not_tooDeep hdeep
  · intro hn
    exact runsOut_of_opensProgram h (p := (ofTokens tokens file).withStatements) ha hn
      (readsProgram_parse tokens file)

end PascalBlock
