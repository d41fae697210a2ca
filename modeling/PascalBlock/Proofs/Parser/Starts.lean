import PascalBlock.Proofs.Parser.Blocks
import PascalBlock.Proofs.Parser.Calls
import PascalBlock.Proofs.Parser.Names
import PascalBlock.Proofs.Parser.Order

/-!
# Where statements start

The calls of a parse that read statements are, in their order, those that built the statement nodes
of the tree in preorder, and each node keeps the line of the token that its call started at
(`ReadsProgram.starts`). No other node has a line. The names of a source are recorded with the lines
of the tokens that were taken (`ReadsProgram.exists_recorded`).
-/

namespace PascalBlock

/-! ## The statements of a tree -/

namespace Node

mutual

/-- All nodes of a tree in preorder, each with whether it is a statement: the children of a block
are, and no other children. -/
def tagged (isStatement : Bool) : Node → List (Node × Bool)
  | mk kind a ns => (mk kind a ns, isStatement) :: taggedAll (kind == .compound) ns

def taggedAll (isStatement : Bool) : List Node → List (Node × Bool)
  | [] => []
  | n :: ns => tagged isStatement n ++ taggedAll isStatement ns

end

/-- The statements in the trees, in preorder, where each tree is one. -/
def statements (ns : List Node) : List Node := ((taggedAll true ns).filter (·.2)).map (·.1)

/-- The other nodes of the trees. -/
def expressions (ns : List Node) : List Node := ((taggedAll true ns).filter (!·.2)).map (·.1)

variable {ns ms : List Node} {s : Bool}

@[simp] theorem taggedAll_nil (s : Bool) : taggedAll s [] = [] := by rw [taggedAll]

@[simp] theorem taggedAll_cons_mk (s : Bool) (kind : NodeKind) (a : Attributes)
    (ns ms : List Node) : taggedAll s (mk kind a ns :: ms) =
      (mk kind a ns, s) :: (taggedAll (kind == .compound) ns ++ taggedAll s ms) := by
  rw [taggedAll, tagged, List.cons_append]

@[simp] theorem taggedAll_append (s : Bool) (ns ms : List Node) :
    taggedAll s (ns ++ ms) = taggedAll s ns ++ taggedAll s ms := by
  induction ns with
  | nil => simp
  | cons n ns ih => cases n; simp [ih]

mutual

theorem map_tagged (s : Bool) : ∀ n : Node, (tagged s n).map (·.1) = n.preorder
  | mk kind a ns => by rw [tagged, List.map_cons, map_taggedAll, preorder_mk]

/-- No node is left out. -/
theorem map_taggedAll (s : Bool) : ∀ ns : List Node, (taggedAll s ns).map (·.1) = preorderAll ns
  | [] => by simp
  | n :: ns => by rw [taggedAll, List.map_append, map_tagged, map_taggedAll, preorderAll_cons]

end

@[simp] theorem statements_append (ns ms : List Node) :
    statements (ns ++ ms) = statements ns ++ statements ms := by simp [statements]

@[simp] theorem expressions_append (ns ms : List Node) :
    expressions (ns ++ ms) = expressions ns ++ expressions ms := by simp [expressions]

/-- Trees without a statement and without a line. -/
def Lineless (ns : List Node) : Prop :=
  ∀ x ∈ taggedAll false ns, x.2 = false ∧ x.1.attributes.line = none

theorem lineless_nil : Lineless [] := List.forall_mem_nil _

theorem Lineless.append (h : Lineless ns) (h' : Lineless ms) : Lineless (ns ++ ms) := by
  rw [Lineless, taggedAll_append]
  exact List.forall_mem_append.2 ⟨h, h'⟩

theorem Lineless.wrap {kind : NodeKind} {a : Attributes} (h : Lineless ns)
    (hk : kind ≠ .compound) (ha : a.line = none) : Lineless [mk kind a ns] := by
  rw [Lineless, taggedAll_cons_mk, taggedAll_nil, List.append_nil, beq_false_of_ne hk]
  exact List.forall_mem_cons.2 ⟨⟨rfl, ha⟩, h⟩

/-- A statement over expressions. -/
theorem Lineless.statement {kind : NodeKind} (h : Lineless ns) (hk : kind ≠ .compound)
    (a : Attributes) : statements [mk kind a ns] = [mk kind a ns] ∧
      expressions [mk kind a ns] = preorderAll ns := by
  have hfalse : ∀ x ∈ taggedAll false ns, x.2 = false := fun x hx => (h x hx).1
  constructor
  · simpa [statements, beq_false_of_ne hk] using hfalse
  · rw [← map_taggedAll false ns]
    simp only [expressions, taggedAll_cons_mk, beq_false_of_ne hk, taggedAll_nil, List.append_nil]
    rw [List.filter_cons_of_neg (by simp), List.filter_eq_self.2 fun x hx => by simp [hfalse x hx]]

theorem Lineless.line_eq_none (h : Lineless ns) :
    ∀ n ∈ preorderAll ns, n.attributes.line = none := by
  rw [← map_taggedAll false ns]
  exact List.forall_mem_map.2 fun x hx => (h x hx).2

end Node

namespace Parser

variable {p q r : Parser} {ts us : List Token} {ds es : List Diagnostic} {ns ms : List Node}
  {vs ws : List Call}

/-! ## Expressions keep no lines -/

theorem ReadsOperand.lineless {phrase : Phrase} (h : ReadsOperand phrase p ts ds ns q) :
    Node.Lineless phrase.before → Node.Lineless ns := by
  induction h with
  | @identifier p =>
    obtain ⟨e, -, hv⟩ := identifier_value p true
    rw [hv]
    exact fun _ => Node.lineless_nil.wrap (by decide) rfl
  | constant hk =>
    rw [constant_value]
    exact fun _ => Node.lineless_nil.wrap (not_compound_of_constant hk) rfl
  | tooDeep | unexpected => exact fun _ => Node.lineless_nil
  | stop => exact fun h => h
  | negation _ _ _ ih | minus _ _ ih =>
    exact fun _ => (ih Node.lineless_nil).wrap (by decide) rfl
  | parentheses _ _ _ _ ih | plus _ _ ih | unsigned _ _ _ ih | simple _ _ ih =>
    exact fun _ => ih Node.lineless_nil
  | @chain s _ _ _ _ _ _ _ _ _ _ _ ih ih' =>
    exact fun _ => ih' (ih (by cases s <;> exact Node.lineless_nil))
  | @link s _ _ _ _ _ _ _ _ _ _ _ hk _ _ ih ih' =>
    have hright := ih (by cases s <;> exact Node.lineless_nil)
    exact fun h => ih' ((Node.Lineless.append h hright).wrap (not_compound_of_operator hk) rfl)
  | relation _ hk _ ih ih' =>
    have hboth := (ih Node.lineless_nil).append (ih' Node.lineless_nil)
    exact fun _ => hboth.wrap (not_compound_of_relational hk) rfl

/-! ## The calls that read statements -/

/-- Whether a routine reads one statement. -/
@[simp] def Routine.isStatement : Routine → Bool
  | .statement => true
  | _ => false

/-- The states in which statements were started, in their order. -/
def started (vs : List Call) : List Parser :=
  (vs.filter (·.routine.isStatement)).map (·.state)

@[simp] theorem started_nil : started [] = [] := rfl

@[simp] theorem started_append (vs ws : List Call) :
    started (vs ++ ws) = started vs ++ started ws := by simp [started]

@[simp] theorem started_cons (v : Call) (vs : List Call) : started (v :: vs) =
    if v.routine.isStatement then v.state :: started vs else started vs := by
  unfold started
  split <;> simp_all

/-- The routines that read expressions. -/
def Routine.ofExpressions : Routine → Bool
  | .factor | .chain _ | .links _ | .expression => true
  | _ => false

theorem Strength.ofExpressions_between (s : Strength) : s.between.ofExpressions = true := by
  cases s <;> rfl

/-- No statement starts inside an expression. -/
theorem Runs.started_eq_nil {routine : Routine} (h : Runs routine p vs q)
    (hr : routine.ofExpressions = true) : started vs = [] := by
  induction h with
  | identifier | constant | tooDeep | unexpected | stop => rfl
  | negation _ _ _ ih | parentheses _ _ _ ih | simple _ _ ih => simp [ih rfl]
  | @chain s _ _ _ _ _ _ _ ih ih' => simp [ih s.ofExpressions_between, ih' rfl]
  | @link s _ _ _ _ _ _ _ _ ih ih' => simp [ih s.ofExpressions_between, ih' rfl]
  | relation _ _ _ ih ih' => simp [ih rfl, ih' rfl]
  | _ => cases hr

/-- A statement keeps the line of the token it starts at, whatever it turns out to be. -/
theorem line?_statement (p : Parser) : p.statement.value.line? = some p.current.line := by
  unfold statement
  cases p.levelsLeft <;> rfl

/-- Every statement node was built by the call that started in its place, and the places follow the
tokens. No other node has a line. -/
structure Starts (ts : List Token) (vs : List Call) (ns : List Node) (q : Parser) : Prop where
  nodes : Node.statements ns = (started vs).map fun s => s.statement.value
  along : Along (ts ++ [q.current]) ((started vs).map current)
  unlined : ∀ n ∈ Node.expressions ns, n.attributes.line = none

namespace Starts

theorem lines (h : Starts ts vs ns q) : (Node.statements ns).map Node.line? =
    (started vs).map fun s => some s.current.line := by
  rw [h.nodes, List.map_map]
  exact List.map_congr_left fun s _ => line?_statement s

theorem nil (ts : List Token) (h : started vs = []) (q : Parser) : Starts ts vs [] q := by
  refine ⟨?_, ?_, List.forall_mem_nil _⟩ <;> rw [h]
  · rfl
  · exact .nil _

theorem trans (h : Starts ts vs ns q) (he : Effect q us es r) (h' : Starts us ws ms r) :
    Starts (ts ++ us) (vs ++ ws) (ns ++ ms) r where
  nodes := by rw [Node.statements_append, h.nodes, h'.nodes, started_append, List.map_append]
  along := by
    obtain ⟨zs, hzs⟩ := he.exists_stream
    have halong := h'.along
    rw [hzs] at halong
    rw [List.append_assoc, hzs, started_append, List.map_append]
    exact h.along.append halong
  unlined := by
    rw [Node.expressions_append]
    exact List.forall_mem_append.2 ⟨h.unlined, h'.unlined⟩

/-- More tokens, and no statement that starts there. -/
theorem behind (h : Starts ts vs ns q) (he : Effect q us es r) : Starts (ts ++ us) vs ns r := by
  have hmore : Starts us [] [] r := nil us rfl r
  simpa using h.trans he hmore

/-- Only the calls that read statements count. -/
theorem recalled (h : Starts ts vs ns q) (hws : started ws = started vs) : Starts ts ws ns q :=
  ⟨hws ▸ h.nodes, hws ▸ h.along, h.unlined⟩

/-- A statement that is no block, at the first of its tokens. -/
theorem single {kind : NodeKind} {a : Attributes} (hns : Node.Lineless ns)
    (hk : kind ≠ .compound) (hnode : [.mk kind a ns] = [p.statement.value])
    (hvs : started vs = [p]) (hts : ts ++ [q.current] = p.current :: us) :
    Starts ts vs [.mk kind a ns] q := by
  obtain ⟨hstatements, hexpressions⟩ := hns.statement hk a
  refine ⟨?_, ?_, ?_⟩
  · rw [hstatements, hnode, hvs]
    rfl
  · rw [hts, hvs]
    exact .stay (.nil _)
  · rw [hexpressions]
    exact hns.line_eq_none

/-- A block, at the token in front of its statements. -/
theorem block {a : Attributes} (h : Starts ts vs ns q)
    (hnode : [.mk .compound a ns] = [p.statement.value]) (hws : started ws = p :: started vs) :
    Starts (p.current :: ts) ws [.mk .compound a ns] q where
  nodes := by
    rw [hws, List.map_cons, ← h.nodes, ← List.singleton_inj.1 hnode]
    simp [Node.statements]
  along := by
    rw [hws, List.map_cons]
    exact .stay (.move h.along)
  unlined := by simpa [Node.expressions] using h.unlined

end Starts

/-- What a statement builds in a state is what the call of it builds there. -/
theorem ReadsStatement.eq_statement (h : ReadsStatement .statement p ts ds ns q)
    (hp : p.Standard) : ns = [p.statement.value] := by
  obtain ⟨_, _, hread⟩ := reading_statement hp
  exact (h.unique hread).2.2.1

/-- **Statements are built where they start**. -/
theorem ReadsStatement.starts {clause : Clause} (h : ReadsStatement clause p ts ds ns q)
    (hp : p.Standard) : ∃ vs, Runs clause.routine p vs q ∧ Starts ts vs ns q := by
  induction h with
  | @assignment p q r ts ds us es ns hk sign value =>
    have hnode := (ReadsStatement.assignment hk sign value).eq_statement hp
    obtain ⟨vs, run⟩ := value.exists_runs
    have hvs := run.started_eq_nil rfl
    rw [sign.eq_expect] at run
    obtain ⟨e, -, hv⟩ := identifier_value p false
    have htarget : Node.Lineless [(identifier false p).value] := by
      rw [hv]
      exact Node.lineless_nil.wrap (by decide) rfl
    have hbelow := htarget.append (value.lineless Node.lineless_nil)
    exact ⟨_, .assigns hk (.assignment run), .single hbelow (by decide) hnode (by simp [hvs]) rfl⟩
  | tooDeep hk hn =>
    have hnode := (ReadsStatement.tooDeep hk hn).eq_statement hp
    exact ⟨_, .block hk (.blockTooDeep hn), .single Node.lineless_nil (by decide) hnode rfl rfl⟩
  | @compound p q r ts ds ns us es hk hn body close ih =>
    have hnode := (ReadsStatement.compound hk hn body close).eq_statement hp
    obtain ⟨vs, run, hstarts⟩ := ih hp
    have hclose : Effect q us es r.exitNesting := by
      simpa using (close.effect (by decide)).trans (.exitNesting r)
    have hlist : Runs (.list .endWord .missingEnd .compound) p.deeper.advance _
        (q.expect .endWord .missingEnd .compound) := .list run
    rw [← close.eq_expect] at hlist
    exact ⟨_, .block hk (.compound hn hlist), (hstarts.block hnode (by simp)).behind hclose⟩
  | @empty p hb hi =>
    have hnode := (ReadsStatement.empty hb hi).eq_statement hp
    exact ⟨_, .empty hb hi, .single Node.lineless_nil (by decide) hnode rfl rfl⟩
  | finish hk => exact ⟨_, .finish hk.symm, .nil _ rfl _⟩
  | round hk one separator rest ih ih' =>
    have hafter := one.effect.trans separator.effect
    obtain ⟨vs, run, hstarts⟩ := ih hp
    obtain ⟨ws, loop, hothers⟩ := ih' (hp.of_effect hafter)
    have hround := (hstarts.behind separator.effect).trans rest.effect hothers
    rw [separator.eq_separate] at loop
    exact ⟨_, .round (fun h => hk h.symm) run loop, hround.recalled (by simp)⟩

theorem ReadsProgram.starts (h : ReadsProgram p ts ds ns q) (hp : p.Standard) :
    ∃ vs, Runs .program p vs q ∧ Starts ts vs ns q := by
  cases h with
  | nothing hk => exact ⟨_, .nothing hk, .nil _ rfl _⟩
  | block hk root period =>
    obtain ⟨vs, run, hstarts⟩ := root.starts hp
    have hall := hstarts.behind (period.effect (by decide))
    have hrun := Runs.program hk run
    rw [← period.eq_expect] at hrun
    exact ⟨_, hrun, hall.recalled (by simp)⟩
  | noBlock hk hb period =>
    rw [period.eq_expect]
    exact ⟨_, .noBlock hk hb, .nil _ rfl _⟩

/-! ## The lines that are recorded -/

/-- Every place in the ledger has the lines of tokens that were taken, in their order. -/
theorem ReadsProgram.exists_recorded (h : ReadsProgram p ts ds ns q) (hs : p.scopes = .initial)
    (e : EntryRef) : ∃ us : List Token, us.Sublist ts ∧
      q.scopes.linesOf e = us.map (·.line) := by
  have hrecords : ScopeStack.initial.Records (identifiers ts) q.scopes := by
    rw [h.uses.scopes, hs]
    exact ScopeStack.records_foldl ScopeStack.sound_initial _
  by_cases he : e.index < q.scopes.ledger.lines.size
  · obtain ⟨f, hf, -, hindex⟩ := hrecords.places e.index (Nat.zero_le _) he
    have hsame : q.scopes.linesOf e = q.scopes.linesOf f := by
      simp only [ScopeStack.linesOf, Ledger.linesOf, hindex]
    refine ⟨(identifiers ts).filter (·.name == f.name),
      List.filter_sublist.trans List.filter_sublist, ?_⟩
    rw [hsame, hrecords.lines f.name f hf]
    rfl
  · exact ⟨[], List.nil_sublist _, Ledger.linesOf_of_le (Nat.not_lt.1 he)⟩

end Parser

end PascalBlock
