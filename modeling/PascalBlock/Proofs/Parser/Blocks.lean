import PascalBlock.Proofs.Parser.Containment
import PascalBlock.Proofs.Parser.Omission
import PascalBlock.Proofs.Parser.TokensKept

/-!
# Blocks are accounted for

A list of statements drops a stray `BEGIN`, and a block that would open a level too many loses its
`BEGIN` while its `END` stays, so the two are not paired by looking at the tokens alone. `Balance`
counts them against the blocks of the tree, and is kept by every rule of the readings. What stands in
a block is followed through the readings by `Encloses`: the tokens fall into those in front of the
block, its own and those behind it, and the nodes of the tree fall with them.

Main result: in every parse the blocks are as many as the `END` that were taken and those that were
flagged as missing, the `BEGIN` that were taken open the blocks or are flagged, and every block has
just what was read between its `BEGIN` and its `END`.
-/

namespace PascalBlock

/-! ## Blocks of a tree -/

namespace Node

/-- How many blocks there are in the trees. -/
def blocks (ns : List Node) : Nat := (preorderAll ns).countP (·.kind == .compound)

@[simp] theorem blocks_nil : blocks [] = 0 := rfl

@[simp] theorem blocks_append (ns ms : List Node) : blocks (ns ++ ms) = blocks ns + blocks ms := by
  simp [blocks]

@[simp] theorem blocks_cons_mk (kind : NodeKind) (a : Attributes) (ns ms : List Node) :
    blocks (mk kind a ns :: ms) = (if kind = .compound then 1 else 0) + blocks ns + blocks ms := by
  simp [blocks, List.countP_cons]
  omega

/-- A node without what is below it. -/
def alone (n : Node) : Node := mk n.kind n.attributes []

@[simp] theorem preorderAll_alone (ns : List Node) :
    preorderAll (ns.map alone) = ns.map alone := by
  induction ns with
  | nil => simp
  | cons n ns ih => simp [ih, alone]

end Node

/-! ## What is flagged on blocks -/

/-- A block was not closed. -/
def Diagnostic.isMissingEnd (d : Diagnostic) : Bool := d.error.cause == .missingEnd

/-- A `BEGIN` was dropped: the block would have opened a level too many, or a list of statements had
no use for it. -/
def Diagnostic.dropsBegin (d : Diagnostic) : Bool :=
  d.token.kind == .beginWord &&
    match d.component, d.error.cause with
    | .compound, .nestingTooDeep => true
    | .statement, .unexpectedToken _ => true
    | _, _ => false

/-- The `BEGIN` and `END` that were taken, and what was flagged on them, balance with the blocks. The
`BEGIN` that were dropped are among those that were taken. -/
structure Balance (ts : List Token) (ds : List Diagnostic) (ns : List Node) : Prop where
  closed : Node.blocks ns = ts.countP (·.kind == .endWord) + ds.countP Diagnostic.isMissingEnd
  opened : ts.countP (·.kind == .beginWord) = Node.blocks ns + ds.countP Diagnostic.dropsBegin
  dropped : ((ds.filter Diagnostic.dropsBegin).map (·.token)).Sublist
    (ts.filter (·.kind == .beginWord))

/-- Neither tokens nor diagnostics are about blocks. -/
structure Blockless (ts : List Token) (ds : List Diagnostic) : Prop where
  taken : ∀ t ∈ ts, t.kind ≠ .beginWord ∧ t.kind ≠ .endWord
  flagged : ∀ d ∈ ds, d.isMissingEnd = false ∧ d.dropsBegin = false

section
variable {ts us : List Token} {ds es : List Diagnostic} {ns ms : List Node}

theorem Balance.append (h : Balance ts ds ns) (h' : Balance us es ms) :
    Balance (ts ++ us) (ds ++ es) (ns ++ ms) where
  closed := by
    simp only [Node.blocks_append, List.countP_append, h.closed, h'.closed]
    omega
  opened := by
    simp only [Node.blocks_append, List.countP_append, h.opened, h'.opened]
    omega
  dropped := by
    simp only [List.filter_append, List.map_append]
    exact h.dropped.append h'.dropped

theorem Blockless.append (h : Blockless ts ds) (h' : Blockless us es) :
    Blockless (ts ++ us) (ds ++ es) :=
  ⟨List.forall_mem_append.2 ⟨h.taken, h'.taken⟩, List.forall_mem_append.2 ⟨h.flagged, h'.flagged⟩⟩

theorem Blockless.balance (h : Blockless ts ds) (hns : Node.blocks ns = 0) : Balance ts ds ns := by
  have hend : ts.countP (·.kind == .endWord) = 0 :=
    List.countP_eq_zero.2 fun t ht => by simpa using (h.taken t ht).2
  have hbegin : ts.countP (·.kind == .beginWord) = 0 :=
    List.countP_eq_zero.2 fun t ht => by simpa using (h.taken t ht).1
  have hmissing : ds.countP Diagnostic.isMissingEnd = 0 :=
    List.countP_eq_zero.2 fun d hd => by simp [(h.flagged d hd).1]
  have hcount : ds.countP Diagnostic.dropsBegin = 0 :=
    List.countP_eq_zero.2 fun d hd => by simp [(h.flagged d hd).2]
  have hdropped : ds.filter Diagnostic.dropsBegin = [] :=
    List.filter_eq_nil_iff.2 fun d hd => by simp [(h.flagged d hd).2]
  exact ⟨by omega, by omega, by simp [hdropped]⟩

end

namespace Parser

variable {p q r : Parser} {ts us : List Token} {ds es : List Diagnostic} {ns ms : List Node}

/-! ## The counts -/

theorem blockless_token (hb : p.kind ≠ .beginWord) (he : p.kind ≠ .endWord) :
    Blockless [p.current] [] :=
  ⟨List.forall_mem_singleton.2 ⟨hb, he⟩, List.forall_mem_nil _⟩

theorem Expects.blockless {kind : TokenKind} {cause : Cause} {component : Component}
    (h : Expects kind cause component p ts ds q) (hk : kind ≠ .beginWord ∧ kind ≠ .endWord)
    (hm : cause ≠ .missingEnd) (hn : cause ≠ .nestingTooDeep)
    (hu : ∀ text, cause ≠ .unexpectedToken text) : Blockless ts ds := by
  refine ⟨fun t ht => by rw [h.taken t ht]; exact hk, ?_⟩
  cases h with
  | found => exact List.forall_mem_nil _
  | missing =>
    refine List.forall_mem_singleton.2 ⟨by simpa [diagnostic, Diagnostic.isMissingEnd] using hm, ?_⟩
    cases component <;> cases cause <;> simp_all [diagnostic, Diagnostic.dropsBegin]

/-- No diagnostic of an expression is about a block. -/
theorem ReadsOperand.blockless {phrase : Phrase} (h : ReadsOperand phrase p ts ds ns q) :
    Blockless ts ds := by
  refine ⟨fun t ht => ?_, ?_⟩
  · have hin := h.inExpression t ht
    exact ⟨ne_of_inExpression hin rfl, ne_of_inExpression hin rfl⟩
  induction h with
  | @identifier p =>
    unfold unknownName
    split <;> simp [diagnostic, Diagnostic.isMissingEnd, Diagnostic.dropsBegin]
  | constant | stop => exact List.forall_mem_nil _
  | tooDeep | unexpected =>
    simp [diagnostic, Diagnostic.isMissingEnd, Diagnostic.dropsBegin]
  | negation _ _ _ ih | plus _ _ ih | minus _ _ ih | unsigned _ _ _ ih | simple _ _ ih => exact ih
  | parentheses _ _ _ close ih =>
    have hclose := close.blockless (by decide) (by decide) (by decide) (by simp)
    exact List.forall_mem_append.2 ⟨ih, hclose.flagged⟩
  | chain _ _ ih ih' | link _ _ _ ih ih' | relation _ _ _ ih ih' =>
    exact List.forall_mem_append.2 ⟨ih, ih'⟩

theorem not_compound_of_constant {kind : TokenKind} {op : NodeKind}
    (h : constantKind? kind = some op) : op ≠ .compound := by
  cases kind <;> cases h <;> decide

theorem not_compound_of_operator {s : Strength} {kind : TokenKind} {op : NodeKind}
    (h : s.operator? kind = some op) : op ≠ .compound := by
  cases s <;> cases kind <;> cases h <;> decide

theorem not_compound_of_relational {kind : TokenKind} {op : NodeKind}
    (h : kind.relational? = some op) : op ≠ .compound := by
  cases kind <;> cases h <;> decide

/-- No block stands in an expression. -/
theorem ReadsOperand.blocks {phrase : Phrase} (h : ReadsOperand phrase p ts ds ns q) :
    Node.blocks ns = Node.blocks phrase.before := by
  induction h with
  | @identifier p =>
    obtain ⟨e, -, hv⟩ := identifier_value p true
    simp [hv, Phrase.before]
  | @constant p kind hk => simp [constant_value, Phrase.before, not_compound_of_constant hk]
  | tooDeep | unexpected | stop => rfl
  | negation _ _ _ ih | minus _ _ ih => simpa [Phrase.before] using ih
  | parentheses _ _ _ _ ih | plus _ _ ih | unsigned _ _ _ ih | simple _ _ ih => exact ih
  | @chain s _ _ _ _ _ _ _ _ _ _ _ ih ih' => rw [ih', Phrase.before, ih]; cases s <;> rfl
  | @link s _ _ _ _ _ _ _ _ _ _ _ hk _ _ ih ih' =>
    have hright : Node.blocks s.operand.before = 0 := by cases s <;> rfl
    rw [hright] at ih
    simp [ih', ih, not_compound_of_operator hk, Phrase.before]
  | relation _ hk _ ih ih' => simp [not_compound_of_relational hk, ih, ih', Phrase.before]

theorem Separates.balance (h : Separates p ts ds q) : Balance ts ds [] := by
  cases h with
  | semicolon hk => exact (blockless_token (by simp [hk]) (by simp [hk])).balance rfl
  | missing =>
    refine Blockless.balance ⟨List.forall_mem_nil _, ?_⟩ rfl
    simp [diagnostic, Diagnostic.isMissingEnd, Diagnostic.dropsBegin]
  | closing => exact Blockless.balance ⟨List.forall_mem_nil _, List.forall_mem_nil _⟩ rfl
  | stray _ _ hk =>
    have hend : p.current.kind ≠ .endWord := fun h => hk (.inl h)
    have hflagged (text : String) :
        (p.diagnostic (.unexpectedToken text) .statement).dropsBegin =
          (p.current.kind == .beginWord) := by
      simp [diagnostic, Diagnostic.dropsBegin]
    refine ⟨?_, ?_, ?_⟩
    · simp [hend, diagnostic, Diagnostic.isMissingEnd]
    · simp [List.countP_cons, hflagged]
    · have htoken (text : String) :
          (p.diagnostic (.unexpectedToken text) .statement).token = p.current := rfl
      by_cases hb : p.current.kind = .beginWord <;> simp [hflagged, htoken, hb]

/-- **Every reading of statements balances** its blocks. -/
theorem ReadsStatement.balance {clause : Clause} (h : ReadsStatement clause p ts ds ns q) :
    Balance ts ds ns := by
  induction h with
  | @assignment p q r ts ds us es ns hk sign value =>
    have htarget : Blockless [p.current] [] := blockless_token (by simp [hk]) (by simp [hk])
    have hsign := sign.blockless (by decide) nofun nofun nofun
    obtain ⟨e, -, hv⟩ := identifier_value p false
    have hvalue : Node.blocks ns = 0 := value.blocks
    exact ((htarget.append hsign).append value.blockless).balance (by simp [hv, hvalue])
  | @tooDeep p hk =>
    have hbegin : p.current.kind = .beginWord := hk
    refine ⟨?_, ?_, ?_⟩ <;>
      simp [hbegin, diagnostic, Diagnostic.isMissingEnd, Diagnostic.dropsBegin]
  | @compound p q r ts ds ns us es hk _ _ close ih =>
    have hbegin : p.current.kind = .beginWord := hk
    obtain ⟨hclosed, hopened, hdropped⟩ := ih
    cases close with
    | found hq =>
      have hend : q.current.kind = .endWord := hq
      refine ⟨?_, ?_, ?_⟩
      · simp [hbegin, hend, hclosed]
        omega
      · simp [hbegin, hend, hopened]
        omega
      · simpa [hbegin, hend] using hdropped.cons _
    | missing =>
      have hdrops : (q.diagnostic .missingEnd .compound).dropsBegin = false := by
        simp [diagnostic, Diagnostic.dropsBegin]
      have hmissing : (q.diagnostic .missingEnd .compound).isMissingEnd = true := rfl
      refine ⟨?_, ?_, ?_⟩
      · simp [hbegin, hclosed, hmissing]
        omega
      · simp [hbegin, hopened, hdrops]
        omega
      · simpa [hbegin, hdrops] using hdropped.cons _
  | empty => exact Blockless.balance ⟨List.forall_mem_nil _, List.forall_mem_nil _⟩ rfl
  | finish => exact Blockless.balance ⟨List.forall_mem_nil _, List.forall_mem_nil _⟩ rfl
  | round _ _ separator _ ih ih' =>
    have h := (ih.append separator.balance).append ih'
    rwa [List.append_nil] at h

theorem ReadsProgram.balance (h : ReadsProgram p ts ds ns q) : Balance ts ds ns := by
  cases h with
  | nothing => exact Blockless.balance ⟨List.forall_mem_nil _, List.forall_mem_nil _⟩ rfl
  | block _ root period =>
    have hperiod := (period.blockless (by decide) nofun nofun nofun).balance Node.blocks_nil
    have h := root.balance.append hperiod
    rwa [List.append_nil] at h
  | noBlock _ _ period =>
    have hflag : Blockless [] [p.diagnostic (.unexpectedToken p.current.text) .program] :=
      ⟨List.forall_mem_nil _, by simp [diagnostic, Diagnostic.isMissingEnd, Diagnostic.dropsBegin]⟩
    exact (hflag.append (period.blockless (by decide) nofun nofun nofun)).balance rfl

/-! ## Where a missing `END` is flagged -/

/-- A list of statements goes on up to what closes it. -/
theorem ReadsStatement.stops {clause : Clause} (h : ReadsStatement clause p ts ds ns q)
    (hc : clause = .statements) : q.kind = .endWord ∨ q.kind = .endOfText := by
  induction h with
  | finish hk => exact hk
  | round _ _ _ _ _ ih' => exact ih' rfl
  | _ => cases hc

/-- A block that is not closed was read up to the end of the text. -/
theorem ReadsStatement.missingEnd {clause : Clause} (h : ReadsStatement clause p ts ds ns q) :
    ∀ d ∈ ds, d.error.cause = .missingEnd → d.component = .compound ∧ d.token.kind = .endOfText := by
  induction h with
  | assignment hk sign value =>
    have hflagged := ((sign.blockless (by decide) nofun nofun nofun).append value.blockless).flagged
    intro d hd hm
    simpa [Diagnostic.isMissingEnd, hm] using (hflagged d hd).1
  | tooDeep => simp [diagnostic]
  | empty | finish => exact List.forall_mem_nil _
  | compound _ _ body close ih =>
    refine List.forall_mem_append.2 ⟨ih, ?_⟩
    cases close with
    | found => exact List.forall_mem_nil _
    | missing hq => exact List.forall_mem_singleton.2 fun _ => ⟨rfl, (body.stops rfl).resolve_left hq⟩
  | round _ _ separator _ ih ih' =>
    refine List.forall_mem_append.2 ⟨List.forall_mem_append.2 ⟨ih, ?_⟩, ih'⟩
    cases separator <;> simp [diagnostic]

theorem ReadsProgram.missingEnd (h : ReadsProgram p ts ds ns q) :
    ∀ d ∈ ds, d.error.cause = .missingEnd → d.component = .compound ∧ d.token.kind = .endOfText := by
  cases h with
  | nothing => exact List.forall_mem_nil _
  | block _ root period =>
    refine List.forall_mem_append.2 ⟨root.missingEnd, ?_⟩
    cases period <;> simp [diagnostic]
  | noBlock _ _ period =>
    refine List.forall_mem_cons.2 ⟨by simp [diagnostic], ?_⟩
    cases period <;> simp [diagnostic]

/-! ## What stands in a block -/

theorem Accounted.append (h : Accounted ts ds [] ns) (h' : Accounted us es [] ms) :
    Accounted (ts ++ us) (ds ++ es) [] (ns ++ ms) := by
  have hframe := h'.frame ns
  rw [List.append_nil] at hframe
  exact h.trans hframe

/-- The account of trees is one of their nodes, each by itself. -/
theorem Accounted.alone (h : Accounted ts ds [] ns) :
    Accounted ts ds [] ((Node.preorderAll ns).map Node.alone) := by
  obtain ⟨fs, hfs, h⟩ := h
  refine ⟨fs, hfs, h.skipped, h.dropped, h.skipped_kind, h.dropped_kind, ?_, ?_⟩
  · rw [← h.leaves, Node.leaves, Node.preorderAll_alone, List.filterMap_map, Node.leaves]
    rfl
  · intro kind hk
    rw [← h.operators kind hk, Node.built, Node.preorderAll_alone, List.countP_map, Node.built]
    rfl

/-- On the way from `p` to `q` the block `c` was read. `front` are the nodes of the trees in front of
it, and `back` those behind what is below it. The first ones are built of the tokens that were taken
before `BEGIN`; there `statement` reads the block. Its statements are those that the loop of a list
reads of the tokens up to `END`, or up to where it is flagged that there is none. The last ones are
built of the tokens behind that. -/
inductive Encloses : Parser → List Token → List Diagnostic → Parser → List Node → Node →
    List Node → Prop
  | mk {p s u v q : Parser} {before inner closing behind : List Token}
      {ds es fs gs : List Diagnostic} {front back : List Node} {c : Node}
      (reached : Effect p before ds s) (front_built : Accounted before ds [] (front.map Node.alone))
      (opening : s.kind = .beginWord) (block : s.statement = ⟨c, v.exitNesting⟩)
      (list : statementRounds statement .endWord s.deeper.advance.cursor.count s.deeper.advance =
        ⟨c.children, u⟩)
      (taken : Effect s.deeper.advance inner es u)
      (close : Expects .endWord .missingEnd .compound u closing fs v)
      (left : Effect v.exitNesting behind gs q)
      (back_built : Accounted behind gs [] (back.map Node.alone)) :
      Encloses p (before ++ (s.current :: inner ++ closing) ++ behind) (ds ++ (es ++ fs) ++ gs) q
        front c back

theorem Encloses.before {front back : List Node} {c : Node} (h : Encloses q ts ds r front c back)
    (he : Effect p us es q) (ha : Accounted us es [] (ms.map Node.alone)) :
    Encloses p (us ++ ts) (es ++ ds) r (ms ++ front) c back := by
  cases h with
  | mk reached built opening block list taken close left back_built =>
    have hbuilt := ha.append built
    rw [← List.map_append] at hbuilt
    simpa only [List.append_assoc] using
      Encloses.mk (he.trans reached) hbuilt opening block list taken close left back_built

theorem Encloses.behind {front back : List Node} {c : Node} (h : Encloses p ts ds q front c back)
    (he : Effect q us es r) (ha : Accounted us es [] (ms.map Node.alone)) :
    Encloses p (ts ++ us) (ds ++ es) r front c (back ++ ms) := by
  cases h with
  | mk reached built opening block list taken close left back_built =>
    have hbuilt := back_built.append ha
    rw [← List.map_append] at hbuilt
    simpa only [List.append_assoc] using
      Encloses.mk reached built opening block list taken close (left.trans he) hbuilt

theorem ne_compound_of_blocks {front rest : List Node} {c : Node} (h : Node.blocks ns = 0)
    (hns : Node.preorderAll ns = front ++ c :: rest) : c.kind ≠ .compound := by
  have hall := List.countP_eq_zero.1 h c (by rw [hns]; simp)
  simpa using hall

/-- **Every block is read from its own tokens**. -/
theorem ReadsStatement.encloses {clause : Clause} (h : ReadsStatement clause p ts ds ns q)
    (hp : p.Standard) {c : Node} (hc : c.kind = .compound) : ∀ {front rest : List Node},
    Node.preorderAll ns = front ++ c :: rest →
      ∃ back, rest = Node.preorderAll c.children ++ back ∧ Encloses p ts ds q front c back := by
  induction h with
  | @assignment p q r ts ds us es ns _ _ value =>
    intro front rest hns
    obtain ⟨e, -, hv⟩ := identifier_value p false
    have hvalue : Node.blocks ns = 0 := value.blocks
    exact absurd hc (ne_compound_of_blocks (by simp [hv, hvalue]) hns)
  | tooDeep | empty => exact fun hns => absurd hc (ne_compound_of_blocks (by simp) hns)
  | finish => exact fun hns => absurd hc (ne_compound_of_blocks rfl hns)
  | @compound p q r ts ds ns us es hk hn body close ih =>
    intro front rest hns
    rw [Node.preorderAll_cons, Node.preorder_mk, Node.preorderAll_nil, List.append_nil] at hns
    cases front with
    | nil =>
      -- the block itself
      obtain ⟨rfl, rfl⟩ := List.cons.inj hns
      obtain ⟨_, _, hread⟩ := reading_statement hp
      obtain ⟨-, -, hvalue, hafter⟩ := hread.unique (.compound hk hn body close)
      obtain ⟨_, _, hlist⟩ := reading_statementRounds_statement (p := p.deeper.advance) hp
      obtain ⟨-, -, hrounds, hstop⟩ := hlist.unique body
      have hblock : p.statement = ⟨.mk .compound p.startLine ns, r.exitNesting⟩ := by
        rw [← hafter, ← (List.singleton_inj.1 hvalue)]
      have hinner : statementRounds statement .endWord p.deeper.advance.cursor.count
          p.deeper.advance = ⟨(Node.mk .compound p.startLine ns).children, q⟩ := by
        rw [← hstop, ← hrounds]
        rfl
      refine ⟨[], (List.append_nil _).symm, ?_⟩
      have hall : Encloses p ([] ++ (p.current :: ts ++ us) ++ []) ([] ++ (ds ++ es) ++ [])
          r.exitNesting [] (.mk .compound p.startLine ns) [] :=
        .mk (.refl p) (accounted_refl []) hk hblock hinner body.effect close (.refl _)
          (accounted_refl [])
      simpa using hall
    | cons m front =>
      -- a block below it
      obtain ⟨rfl, hbelow⟩ := List.cons.inj hns
      obtain ⟨back, hrest, hencloses⟩ := ih hp hbelow
      have hbegin : Accounted [p.current] [] []
          ([Node.mk .compound p.startLine ns].map Node.alone) :=
        (accounted_punctuation hk ⟨by decide, rfl, by decide⟩ []).statement (.inl rfl) p.startLine
      have hopen : Effect p [p.current] [] p.deeper.advance :=
        (Effect.advance (by simp [hk])).trans (.deeper _)
      have hclose : Accounted (us ++ []) (es ++ []) [] (([] : List Node).map Node.alone) := by
        simpa using close.accounted ⟨by decide, rfl, by decide⟩ nofun nofun []
      have hall := (hencloses.before hopen hbegin).behind
        ((close.effect (by decide)).trans (.exitNesting r)) hclose
      exact ⟨back, hrest, by simpa using hall⟩
  | @round p q r r' ts ds ns us es vs fs ms hk one separator rest ih ih' =>
    intro front tail hns
    have hafter := one.effect.trans separator.effect
    have hseparator := separator.accounted []
    rw [Node.preorderAll_append] at hns
    rcases append_eq_append_cons hns with ⟨more, hone, rfl⟩ | ⟨more, rfl, hothers⟩
    · -- in the first statement
      obtain ⟨back, rfl, hencloses⟩ := ih hp hone
      have hbehind : Accounted (us ++ vs) (es ++ fs) [] ((Node.preorderAll ms).map Node.alone) := by
        simpa using hseparator.append rest.accounted.alone
      have hall := hencloses.behind (separator.effect.trans rest.effect) hbehind
      refine ⟨back ++ Node.preorderAll ms, List.append_assoc .., ?_⟩
      simpa only [List.append_assoc] using hall
    · -- among the statements behind it
      obtain ⟨back, hrest, hencloses⟩ := ih' (hp.of_effect hafter) hothers
      have hbefore : Accounted (ts ++ us) (ds ++ es) [] ((Node.preorderAll ns).map Node.alone) := by
        simpa using one.accounted.alone.append hseparator
      exact ⟨back, hrest, hencloses.before hafter hbefore⟩

theorem ReadsProgram.encloses (h : ReadsProgram p ts ds ns q) (hp : p.Standard) {c : Node}
    (hc : c.kind = .compound) {front rest : List Node}
    (hns : Node.preorderAll ns = front ++ c :: rest) :
    ∃ back, rest = Node.preorderAll c.children ++ back ∧ Encloses p ts ds q front c back := by
  cases h with
  | nothing | noBlock => simp at hns
  | block _ root period =>
    obtain ⟨back, hrest, hencloses⟩ := root.encloses hp hc hns
    have hperiod : Accounted _ _ [] (([] : List Node).map Node.alone) :=
      period.accounted ⟨by decide, rfl, by decide⟩ nofun nofun []
    have hall := hencloses.behind (period.effect (by decide)) hperiod
    exact ⟨back, hrest, by simpa using hall⟩

end Parser

/-! ## Whole parses -/

open PascalBlock.Parser

/-- A reading that stops at an end token stops at the first one. -/
theorem Parser.Effect.find?_stream {p q : Parser} {ts : List Token} {ds : List Diagnostic}
    (h : Effect p ts ds q) (hq : q.current.kind = .endOfText) :
    p.cursor.stream.find? (·.kind == .endOfText) = some q.current := by
  have htaken : ts.find? (·.kind == .endOfText) = none :=
    List.find?_eq_none.2 fun t ht => by simpa using h.taken t ht
  rw [Cursor.stream, h.ahead, ← h.last, List.append_assoc, List.find?_append, htaken,
    Option.none_or]
  rw [current, Cursor.current] at hq ⊢
  cases ha : q.cursor.ahead with
  | nil => simp [q.cursor.last_kind]
  | cons t us =>
    rw [ha] at hq
    simp only [List.headD_cons] at hq
    simp [hq]

/-- **Blocks are accounted for**. In every parse there are as many blocks as `END` that were taken
and `END` that were flagged as missing. A missing `END` is flagged by the block, on the first token
that ends the text. The `BEGIN` that were taken are as many as the blocks and those that were
flagged, by a block for its level or by a list of statements that had no use for it. Every block has
what was read between its `BEGIN` and its `END`, and nothing else has. -/
theorem blocks_are_accounted_for (tokens : List Token) (file : String) :
    let taken := consumed tokens (parse tokens file)
    let flagged := (parse tokens file).after.log.entries.toList
    let nodes := Node.preorderAll (parse tokens file).value.toList
    nodes.countP (·.kind == .compound) =
        taken.countP (·.kind == .endWord) + flagged.countP (·.error.cause == .missingEnd) ∧
      (∀ d ∈ flagged, d.error.cause = .missingEnd → d.component = .compound ∧
        (Cursor.ofTokens tokens file).stream.find? (·.kind == .endOfText) = some d.token) ∧
      taken.countP (·.kind == .beginWord) =
        nodes.countP (·.kind == .compound) + flagged.countP Diagnostic.dropsBegin ∧
      ((flagged.filter Diagnostic.dropsBegin).map (·.token)).Sublist
        (taken.filter (·.kind == .beginWord)) ∧
      ∀ (front : List Node) (c : Node) (rest : List Node), nodes = front ++ c :: rest →
        c.kind = .compound → ∃ back, rest = Node.preorderAll c.children ++ back ∧
          Encloses (ofTokens tokens file).withStatements taken flagged (parse tokens file).after
            front c back := by
  intro taken flagged nodes
  have hread := readsProgram_parse tokens file
  obtain ⟨hclosed, hopened, hdropped⟩ := hread.balance
  refine ⟨hclosed, fun d hd hm => ?_, hopened, hdropped, fun front c rest hns hc =>
    hread.encloses (standard_withStatements tokens file) hc hns⟩
  obtain ⟨hcomponent, hkind⟩ := hread.missingEnd d hd hm
  refine ⟨hcomponent, ?_⟩
  -- no end token was taken, so the one that was flagged stopped the parse
  rcases List.mem_append.1 (hread.within d hd) with ht | ht
  · exact absurd hkind (hread.effect.taken _ ht)
  · rw [List.mem_singleton.1 ht] at hkind ⊢
    exact hread.effect.find?_stream hkind

end PascalBlock
