import PascalBlock.Proofs.Parser.Notes
import PascalBlock.Proofs.Parser.Order

/-!
# Errors end at the next semicolon

Neither an assignment nor an expression takes a semicolon, so whatever tokens stand before one, the
list of statements comes back to its loop behind it (`ComesBack`), and what was wrong with them is
flagged on them. Main result: with that, nothing that is read behind the semicolon depends on what
stood before it, up to which names are known.
-/

namespace PascalBlock

/-- The tokens ahead and the last one make up a cursor. -/
theorem Cursor.eq_of_ahead {c d : Cursor} (ha : c.ahead = d.ahead) (hl : c.last = d.last) :
    c = d := by
  have hcount : c.count = d.count := by rw [c.count_eq, d.count_eq, ha]
  cases c
  cases d
  simp_all

namespace Parser

variable {p q r : Parser} {G R ts us : List Token} {semi : Token} {ds es : List Diagnostic}
  {ns ms : List Node}

/-! ## What takes no semicolon -/

theorem ReadsOperand.no_semicolon {phrase : Phrase} (h : ReadsOperand phrase p ts ds ns q) :
    ∀ t ∈ ts, t.kind ≠ .semicolon := fun t ht => ne_of_inExpression (h.inExpression t ht) rfl

/-- A statement that is no block takes no semicolon. -/
theorem ReadsStatement.no_semicolon (h : ReadsStatement .statement p ts ds ns q)
    (hb : p.kind ≠ .beginWord) : ∀ t ∈ ts, t.kind ≠ .semicolon := by
  cases h with
  | assignment hk sign value =>
    refine List.forall_mem_append.2 ⟨List.forall_mem_cons.2 ⟨?_, ?_⟩, value.no_semicolon⟩
    · rw [current_kind, hk]; decide
    · exact fun t ht => by rw [sign.taken t ht]; decide
  | tooDeep hk | compound hk => exact absurd hk hb
  | empty => exact List.forall_mem_nil _

/-! ## Where diagnostics are flagged -/

/-- The diagnostics were flagged on tokens that were taken, or on the one that stopped the
reading. -/
def Within (ts : List Token) (ds : List Diagnostic) (q : Parser) : Prop :=
  ∀ d ∈ ds, d.token ∈ ts ++ [q.current]

theorem FlaggedAlong.within (h : FlaggedAlong ts ds q) : Within ts ds q := fun _ hd =>
  h.subset (List.mem_map_of_mem hd)

theorem ReadsStatement.within {clause : Clause} (h : ReadsStatement clause p ts ds ns q) :
    Within ts ds q := h.flaggedAlong.within

theorem ReadsProgram.within (h : ReadsProgram p ts ds ns q) : Within ts ds q :=
  h.flaggedAlong.within

/-- The diagnostics stand where the tokens start that they were flagged on. -/
def Placed (ds : List Diagnostic) : Prop := ∀ d ∈ ds, d.error.position = d.token.start

namespace Placed

theorem map_offset (h : Placed ds) :
    ds.map (·.error.position.offset) = (ds.map (·.token)).map (·.start.offset) := by
  rw [List.map_map]
  exact List.map_congr_left fun d hd => congrArg Position.offset (h d hd)

theorem nil : Placed [] := List.forall_mem_nil _

theorem diagnostic (p : Parser) (cause : Cause) (component : Component) :
    Placed [p.diagnostic cause component] := List.forall_mem_singleton.2 rfl

theorem unknownName (p : Parser) : Placed p.unknownName := by
  unfold Parser.unknownName
  split
  · exact nil
  · exact diagnostic _ _ _

theorem append (h : Placed ds) (h' : Placed es) : Placed (ds ++ es) :=
  List.forall_mem_append.2 ⟨h, h'⟩

end Placed

theorem Expects.placed {kind : TokenKind} {cause : Cause} {component : Component}
    (h : Expects kind cause component p ts ds q) : Placed ds := by
  cases h with
  | found => exact .nil
  | missing => exact .diagnostic _ _ _

theorem ReadsOperand.placed {phrase : Phrase} (h : ReadsOperand phrase p ts ds ns q) :
    Placed ds := by
  induction h with
  | identifier => exact .unknownName _
  | constant | stop => exact .nil
  | tooDeep | unexpected => exact .diagnostic _ _ _
  | negation _ _ _ ih | plus _ _ ih | minus _ _ ih | unsigned _ _ _ ih | simple _ _ ih => exact ih
  | parentheses _ _ _ close ih => exact ih.append close.placed
  | chain _ _ ih ih' | link _ _ _ ih ih' | relation _ _ _ ih ih' => exact ih.append ih'

theorem Separates.placed (h : Separates p ts ds q) : Placed ds := by
  cases h with
  | semicolon | closing => exact .nil
  | missing | stray => exact .diagnostic _ _ _

theorem ReadsStatement.placed {clause : Clause} (h : ReadsStatement clause p ts ds ns q) :
    Placed ds := by
  induction h with
  | assignment _ sign value => exact sign.placed.append value.placed
  | tooDeep => exact .diagnostic _ _ _
  | compound _ _ _ close ih => exact ih.append close.placed
  | empty | finish => exact .nil
  | round _ _ separator _ ih ih' => exact (ih.append separator.placed).append ih'

theorem ReadsProgram.placed (h : ReadsProgram p ts ds ns q) : Placed ds := by
  cases h with
  | nothing => exact .nil
  | block _ root period => exact root.placed.append period.placed
  | noBlock _ _ period => exact (Placed.diagnostic _ _ _).append period.placed

/-! ## The loop of a list -/

/-- From the head of its loop at `p` the list comes to the head of its loop at `q`, and has read the
statements `ns`. -/
inductive Rounds (statement : Parser → Parsed Node) (terminator : TokenKind) :
    Parser → List Node → Parser → Prop
  | refl (p : Parser) : Rounds statement terminator p [] p
  | round {p q : Parser} {ns : List Node} : p.kind ≠ .endOfText → p.kind ≠ terminator →
      Rounds statement terminator (statementRound statement terminator p).after ns q →
      Rounds statement terminator p ((statementRound statement terminator p).value :: ns) q

/-- What is read from `q` on follows what the rounds have read. -/
theorem Rounds.reads (h : Rounds statement .endWord p ns q) (hp : p.Standard)
    (hq : ReadsStatement .statements q ts ds ms r) :
    ∃ us es, ReadsStatement .statements p us es (ns ++ ms) r := by
  induction h with
  | refl => exact ⟨ts, ds, hq⟩
  | @round p _ _ hend hword _ ih =>
    obtain ⟨us, es, one⟩ := reading_statement hp
    obtain ⟨vs, fs, separator⟩ := separates_separate p.statement.after
    obtain ⟨_, _, rest⟩ := ih (hp.of_effect (one.effect.trans separator.effect)) hq
    have hread := ReadsStatement.round (fun h => h.elim hword hend) one separator rest
    exact ⟨_, _, hread⟩

theorem reading_statementRounds_statement (hp : p.Standard) :
    ∃ ts ds, ReadsStatement .statements p ts ds
      (statementRounds statement .endWord p.cursor.count p).value
      (statementRounds statement .endWord p.cursor.count p).after :=
  reading_statementRounds (fun _ _ hp => reading_statement hp) _ p rfl hp (Nat.le_refl _)

/-- The list goes on where the rounds have ended. -/
theorem Rounds.statementList_eq (h : Rounds statement .endWord p ns q) (hp : p.Standard)
    (hq : q.Standard) (cause : Cause) (component : Component) :
    statementList statement .endWord cause component p =
      ⟨ns ++ (statementList statement .endWord cause component q).value,
        (statementList statement .endWord cause component q).after⟩ := by
  obtain ⟨ts, ds, hread⟩ := reading_statementRounds_statement hq
  obtain ⟨us, es, hread'⟩ := h.reads hp hread
  obtain ⟨vs, fs, hread''⟩ := reading_statementRounds_statement hp
  obtain ⟨-, -, hvalue, hafter⟩ := hread''.unique hread'
  simp only [statementList, hvalue, hafter]

/-- The lists of blocks are read by the same loop, at every depth. -/
theorem compound_eq (hp : p.Standard) (hn : p.nesting < maxNesting) : p.compound =
    let list := statementList statement .endWord .missingEnd .compound p.deeper.advance
    ⟨.mk .compound .empty list.value, list.after.exitNesting⟩ := by
  obtain ⟨ts, ds, hread⟩ := reading_statementRounds_statement (p := p.deeper.advance) hp
  obtain ⟨us, es, hread'⟩ := reading_statementRounds
    (reading_statementAt p.deeper.advance.levelsLeft) p.deeper.advance.cursor.count
    p.deeper.advance rfl hp (Nat.le_refl _)
  obtain ⟨-, -, hvalue, hafter⟩ := hread.unique hread'
  have hlevels : p.levelsLeft - 1 = p.deeper.advance.levelsLeft := by
    rw [levelsLeft_deeper hn, Nat.add_sub_cancel]
  simp only [compound, compoundWith, nested_of_lt hn, statementList, hlevels, hvalue, hafter]

/-! ## Back to the loop -/

/-- Tokens that neither separate statements nor enclose any. -/
def Loose (G : List Token) : Prop := ∀ t ∈ G,
  t.kind ≠ .semicolon ∧ t.kind ≠ .beginWord ∧ t.kind ≠ .endWord ∧ t.kind ≠ .endOfText

/-- The list comes back to the head of its loop behind `taken`, on the same level and with at least
one statement; what is flagged on the way is flagged on these tokens. From there the list goes on as
any list does. -/
structure ComesBack (p : Parser) (taken : List Token) (ns : List Node) (ds : List Diagnostic)
    (q : Parser) : Prop where
  rounds : Rounds statement .endWord p ns q
  some : ns ≠ []
  effect : Effect p taken ds q
  nesting : q.nesting = p.nesting
  flagged : ∀ d ∈ ds, d.token ∈ taken
  list : ∀ cause component, statementList statement .endWord cause component p =
    ⟨ns ++ (statementList statement .endWord cause component q).value,
      (statementList statement .endWord cause component q).after⟩

/-- The loop does not end in front of the semicolon, and no block begins there. -/
theorem kind_of_loose (hG : Loose G) (hsemi : semi.kind = .semicolon)
    (ha : p.cursor.ahead = G ++ semi :: R) :
    p.kind ≠ .beginWord ∧ p.kind ≠ .endWord ∧ p.kind ≠ .endOfText := by
  cases G with
  | nil =>
    rw [show p.kind = semi.kind from Cursor.kind_eq ha, hsemi]
    decide
  | cons t G =>
    rw [show p.kind = t.kind from Cursor.kind_eq ha]
    exact (hG t List.mem_cons_self).2

/-- What takes no semicolon stays in front of the first one. -/
theorem exists_append_of_no_semicolon (h : ts ++ us = G ++ semi :: R)
    (hsemi : semi.kind = .semicolon) (hts : ∀ t ∈ ts, t.kind ≠ .semicolon) :
    ∃ G', G = ts ++ G' ∧ us = G' ++ semi :: R := by
  rcases List.append_eq_append_iff.1 h with ⟨G', hG, hus⟩ | ⟨vs, rfl, hvs⟩
  · exact ⟨G', hG, hus⟩
  · cases vs with
    | nil => exact ⟨[], by simp, by simpa using hvs.symm⟩
    | cons t vs =>
      obtain ⟨rfl, -⟩ := List.cons.inj hvs
      exact absurd hsemi (hts _ (List.mem_append_right _ List.mem_cons_self))

theorem current_mem_of_loose (ha : p.cursor.ahead = G ++ semi :: R) : p.current ∈ G ++ [semi] := by
  cases G with
  | nil => simp [current, Cursor.current, ha]
  | cons t G => simp [current, Cursor.current, ha]

/-- What stands behind a statement is the semicolon, or a token before it. -/
theorem Separates.of_loose (h : Separates p us es q) (hG : Loose G)
    (hsemi : semi.kind = .semicolon) (ha : p.cursor.ahead = G ++ semi :: R) :
    (∀ d ∈ es, d.token ∈ G ++ [semi]) ∧ (us = G ++ [semi] ∨ ∃ G', G = us ++ G') := by
  obtain ⟨-, hword, hend⟩ := kind_of_loose hG hsemi ha
  have hcurrent := current_mem_of_loose ha
  cases h with
  | semicolon hk =>
    refine ⟨List.forall_mem_nil _, .inl ?_⟩
    cases G with
    | nil => simp [current, Cursor.current, ha]
    | cons t G =>
      rw [show p.kind = t.kind from Cursor.kind_eq ha] at hk
      exact absurd hk (hG t List.mem_cons_self).1
  | missing hk => exact ⟨List.forall_mem_singleton.2 hcurrent, .inr ⟨G, rfl⟩⟩
  | closing hk => exact absurd hk fun h => h.elim hword hend
  | stray hs =>
    refine ⟨List.forall_mem_singleton.2 hcurrent, .inr ?_⟩
    cases G with
    | nil =>
      rw [show p.kind = semi.kind from Cursor.kind_eq ha] at hs
      exact absurd hsemi hs
    | cons t G => exact ⟨G, by simp [current, Cursor.current, ha]⟩

/-- One round takes the semicolon, or some of the tokens before it. -/
theorem round_of_loose (hp : p.Standard) (hG : Loose G) (hsemi : semi.kind = .semicolon)
    (ha : p.cursor.ahead = G ++ semi :: R) : ∃ taken ds,
      Effect p taken ds (statementRound statement .endWord p).after ∧
      (statementRound statement .endWord p).after.nesting = p.nesting ∧
      (∀ d ∈ ds, d.token ∈ G ++ [semi]) ∧
      (taken = G ++ [semi] ∨ ∃ G', taken ≠ [] ∧ G = taken ++ G') := by
  obtain ⟨hb, hw, he⟩ := kind_of_loose hG hsemi ha
  obtain ⟨ts, ds, one⟩ := reading_statement hp
  obtain ⟨us, es, separator⟩ := separates_separate p.statement.after
  have hpos := one.round_pos (fun h => h.elim hw he) separator
  have heffect := one.effect.trans separator.effect
  have hnesting : (p.statement.after.separate .endWord).nesting = p.nesting :=
    separator.nesting.trans one.nesting
  obtain ⟨G', rfl, hahead⟩ := exists_append_of_no_semicolon (one.effect.ahead.symm.trans ha) hsemi
    (one.no_semicolon hb)
  have hG' : Loose G' := fun t ht => hG t (List.mem_append_right _ ht)
  obtain ⟨hes, hus⟩ := separator.of_loose hG' hsemi hahead
  refine ⟨ts ++ us, ds ++ es, heffect, hnesting, ?_, ?_⟩
  · rw [List.append_assoc]
    intro d hd
    rcases List.mem_append.1 hd with hd | hd
    · rcases List.mem_append.1 (one.within d hd) with ht | ht
      · exact List.mem_append_left _ ht
      · rw [List.mem_singleton.1 ht]
        exact List.mem_append_right _ (current_mem_of_loose hahead)
    · exact List.mem_append_right _ (hes d hd)
  · rcases hus with rfl | ⟨G'', rfl⟩
    · exact .inl (List.append_assoc ..).symm
    · exact .inr ⟨G'', List.length_pos_iff.1 hpos, (List.append_assoc ..).symm⟩

theorem comesBack_of_loose (hp : p.Standard) (hG : Loose G) (hsemi : semi.kind = .semicolon)
    (ha : p.cursor.ahead = G ++ semi :: R) : ∃ ns ds q, ComesBack p (G ++ [semi]) ns ds q := by
  induction hlength : G.length using Nat.strongRecOn generalizing p G with
  | ind n ih =>
    subst hlength
    obtain ⟨-, hword, hend⟩ := kind_of_loose hG hsemi ha
    obtain ⟨taken, ds, heffect, hnesting, hflagged, htaken⟩ := round_of_loose hp hG hsemi ha
    rcases htaken with rfl | ⟨G', hne, rfl⟩
    · have hrounds := Rounds.round hend hword
        (.refl (statementRound statement .endWord p).after)
      exact ⟨_, ds, _, hrounds, by simp, heffect, hnesting, hflagged,
        hrounds.statementList_eq hp (hp.of_effect heffect)⟩
    · rw [List.append_assoc] at ha hflagged
      have hG' : Loose G' := fun t ht => hG t (List.mem_append_right _ ht)
      have hlt : G'.length < (taken ++ G').length := by
        have hpos := List.length_pos_iff.2 hne
        rw [List.length_append]
        omega
      obtain ⟨ns, es, q, h⟩ := ih _ hlt (hp.of_effect heffect) hG' (heffect.ahead_eq ha) rfl
      have hrounds := Rounds.round hend hword h.rounds
      have hall := heffect.trans h.effect
      rw [← List.append_assoc] at hall
      refine ⟨_, ds ++ es, q, hrounds, by simp, hall, h.nesting.trans hnesting, ?_,
        hrounds.statementList_eq hp (hp.of_effect hall)⟩
      rw [List.append_assoc]
      refine List.forall_mem_append.2 ⟨hflagged, fun d hd => ?_⟩
      exact List.mem_append_right _ (h.flagged d hd)

/-! ## What is read behind it -/

/-- From `q` and from `q'` a list goes on alike: up to which names are known it reads the same
statements and flags the same, and it ends at the same place. -/
structure GoesOnAlike (cause : Cause) (component : Component) (q q' : Parser) : Prop where
  nodes : (statementList statement .endWord cause component q').value.map Node.named =
    (statementList statement .endWord cause component q).value.map Node.named
  cursor : (statementList statement .endWord cause component q').after.cursor =
    (statementList statement .endWord cause component q).after.cursor
  diagnostics : ∃ ds ds',
    (statementList statement .endWord cause component q).after.log.entries.toList =
      q.log.entries.toList ++ ds ∧
    (statementList statement .endWord cause component q').after.log.entries.toList =
      q'.log.entries.toList ++ ds' ∧
    Diagnostic.others ds' = Diagnostic.others ds

/-- The list only makes notes of what was read before. -/
theorem goesOnAlike_renoted (hq : q.Standard) (m : Notes) (cause : Cause)
    (component : Component) : GoesOnAlike cause component q (q.renoted m) := by
  obtain ⟨ts, ds, hread⟩ := reading_statementRounds_statement hq
  obtain ⟨ds', ns', m', hread', hds, hns⟩ := hread.renoted m
  obtain ⟨us, es, hread''⟩ := reading_statementRounds_statement (p := q.renoted m) hq
  obtain ⟨rfl, rfl, rfl, hafter⟩ := hread'.unique hread''
  obtain ⟨vs, fs, hclose⟩ := Expects.expect
    (statementRounds statement .endWord q.cursor.count q).after .endWord cause component
  obtain ⟨m'', hclose'⟩ := hclose.renoted m'
  obtain ⟨vs', fs', hclose''⟩ := Expects.expect
    (statementRounds statement .endWord q.cursor.count (q.renoted m)).after .endWord cause component
  rw [hafter] at hclose'
  obtain ⟨rfl, rfl, hlast⟩ := hclose'.unique hclose''
  refine ⟨hns, ?_, ds ++ fs, ds' ++ fs, ?_, ?_, by simp [hds]⟩
  · have hcursor := congrArg Parser.cursor hlast.symm
    exact hcursor
  · exact (hread.effect.trans (hclose.effect (by decide))).log
  · exact (hread''.effect.trans (hclose''.effect (by decide))).log

/-- **Errors end at the next semicolon**. Whatever stands before it, the list comes back behind it;
and with anything else before it, the list comes back to the same place and goes on alike. -/
theorem errors_end_at_the_semicolon (hp : p.Standard) (hG : Loose G)
    (hsemi : semi.kind = .semicolon) (ha : p.cursor.ahead = G ++ semi :: R) :
    ∃ ns ds q, ComesBack p (G ++ [semi]) ns ds q ∧ q.cursor.ahead = R ∧
      ∀ (c : Cursor) (G' : List Token), Loose G' → c.ahead = G' ++ semi :: R →
        c.last = p.cursor.last →
        ∃ ns' ds' q', ComesBack { p with cursor := c } (G' ++ [semi]) ns' ds' q' ∧
          q'.cursor = q.cursor ∧ ∀ cause component, GoesOnAlike cause component q q' := by
  obtain ⟨ns, ds, q, h⟩ := comesBack_of_loose hp hG hsemi ha
  have hahead : q.cursor.ahead = R := h.effect.ahead_eq (by simpa using ha)
  refine ⟨ns, ds, q, h, hahead, fun c G' hG' hc hlast => ?_⟩
  obtain ⟨ns', ds', q', h'⟩ := comesBack_of_loose (p := { p with cursor := c }) hp hG' hsemi hc
  have hahead' : q'.cursor.ahead = R := h'.effect.ahead_eq (by simpa using hc)
  have hcursor : q'.cursor = q.cursor := by
    refine Cursor.eq_of_ahead (hahead'.trans hahead.symm) ?_
    rw [h'.effect.last, h.effect.last]
    exact hlast
  -- the two states differ in their notes only
  have hsame : q' = q.renoted q'.notes :=
    eq_renoted hcursor (h'.effect.handlers.trans h.effect.handlers.symm)
      (h'.nesting.trans h.nesting.symm)
  refine ⟨ns', ds', q', h', hcursor, fun cause component => ?_⟩
  rw [hsame]
  exact goesOnAlike_renoted (hp.of_effect h.effect) _ cause component

/-- At the head of the list `x := ) ; y := 1 END`. -/
def strayParen : Parser :=
  (ofTokens [⟨.identifier, "x", none, 1, ⟨"", 0⟩, ⟨"", 1⟩⟩,
    ⟨.becomes, ":=", none, 1, ⟨"", 2⟩, ⟨"", 4⟩⟩,
    ⟨.rightParen, ")", none, 1, ⟨"", 5⟩, ⟨"", 6⟩⟩, ⟨.semicolon, ";", none, 1, ⟨"", 7⟩, ⟨"", 8⟩⟩,
    ⟨.identifier, "y", none, 2, ⟨"", 9⟩, ⟨"", 10⟩⟩, ⟨.becomes, ":=", none, 2, ⟨"", 11⟩, ⟨"", 13⟩⟩,
    ⟨.integer, "1", some (.integer 1), 2, ⟨"", 14⟩, ⟨"", 15⟩⟩,
    ⟨.endWord, "END", none, 2, ⟨"", 16⟩, ⟨"", 19⟩⟩]
    "").withStatements

/-- The parenthesis does no harm behind the semicolon. -/
theorem errors_end_in_strayParen :
    (strayParen.Standard ∧ Loose (strayParen.cursor.ahead.take 3) ∧
      strayParen.cursor.ahead = strayParen.cursor.ahead.take 3 ++
        ⟨.semicolon, ";", none, 1, ⟨"", 7⟩, ⟨"", 8⟩⟩ :: strayParen.cursor.ahead.drop 4) ∧
      ∃ ns ds q, ComesBack strayParen
        (strayParen.cursor.ahead.take 3 ++ [⟨.semicolon, ";", none, 1, ⟨"", 7⟩, ⟨"", 8⟩⟩]) ns ds q ∧
        q.cursor.ahead = strayParen.cursor.ahead.drop 4 := by
  have hstandard : strayParen.Standard := standard_withStatements _ _
  have hloose : Loose (strayParen.cursor.ahead.take 3) := by
    unfold Loose
    decide
  have hahead : strayParen.cursor.ahead = strayParen.cursor.ahead.take 3 ++
      ⟨.semicolon, ";", none, 1, ⟨"", 7⟩, ⟨"", 8⟩⟩ :: strayParen.cursor.ahead.drop 4 := by decide
  obtain ⟨ns, ds, q, h, hq, -⟩ := errors_end_at_the_semicolon hstandard hloose rfl hahead
  exact ⟨⟨hstandard, hloose, hahead⟩, ns, ds, q, h, hq⟩

end Parser

end PascalBlock
