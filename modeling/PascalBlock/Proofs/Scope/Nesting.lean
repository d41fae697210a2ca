import PascalBlock.Proofs.Scope.Tracked

/-!
# Scopes nest

An operation changes the open scopes in one of a few ways (`Moves`). From these follow the levels of
the scopes, and that a balanced stretch of operations leaves the scopes beneath it alone. Main
result: whatever is done in whatever order, the scopes nest and every entry belongs to one of them
(`scopes_nest`).
-/

namespace PascalBlock

namespace TrackedSession

variable {t : TrackedSession} {origins : List (Nat × String)} {name : String} {e f : EntryRef}
  {number : Nat}

/-! ## What the operations do to the open scopes -/

/-- From the open scopes `a` an operation comes to `b`. -/
inductive Moves : ScopeOp → List Scope → List Scope → Prop
  | enter {name : String} {scope scope' : Scope} {outer : List Scope}
      (hlevel : scope'.level = scope.level) :
      Moves (.enter name) (scope :: outer) (scope' :: outer)
  | push {a : List Scope} : Moves .push a (.empty a.length :: a)
  | pop {scope next : Scope} {outer : List Scope} :
      Moves .pop (scope :: next :: outer) (next :: outer)
  | global {scope : Scope} : Moves .pop [scope] [scope]
  | look {op : ScopeOp} {a : List Scope} (hlook : op.looksOn) : Moves op a a

theorem moves_enter (s : ScopeStack) (name : String) :
    Moves (.enter name) s.scopes (s.enter name).2.scopes := by
  cases hlocal : s.lookupLocal? name with
  | some e =>
    rw [ScopeStack.enter_of_lookupLocal? hlocal]
    exact .enter rfl
  | none =>
    rw [ScopeStack.enter_of_not_lookupLocal? hlocal]
    show Moves _ (s.innermost :: s.outer) (⟨s.innermost.level, _⟩ :: s.outer)
    exact .enter rfl

theorem moves_pop (t : TrackedSession) :
    Moves .pop t.stack.scopes (t.step .pop).stack.scopes := by
  simp only [step, ScopeStack.pop, ScopeStack.scopes]
  cases houter : t.stack.outer with
  | nil =>
    simp only [houter]
    exact .global
  | cons next rest => exact .pop

theorem step_moves (t : TrackedSession) (op : ScopeOp) :
    Moves op t.stack.scopes (t.step op).stack.scopes := by
  cases op with
  | enter name => exact moves_enter t.stack name
  | push => exact .push
  | pop => exact moves_pop t
  | lookup | lookupLocal => exact .look rfl
  | record handle line | enterClosed table name | lookupClosed table name =>
    simp only [step]
    split <;> exact .look rfl

/-- Every scope has as its level how many scopes enclose it. -/
def Stacked : List Scope → Prop
  | [] => True
  | scope :: outer => scope.level = outer.length ∧ Stacked outer

theorem Moves.stacked {op : ScopeOp} {a b : List Scope} (h : Moves op a b) (ha : Stacked a) :
    Stacked b := by
  cases h with
  | enter hlevel => exact ⟨hlevel.trans ha.1, ha.2⟩
  | push => exact ⟨rfl, ha⟩
  | pop => exact ha.2
  | global | look => exact ha

theorem stacked_run (h : Stacked t.stack.scopes) (ops : List ScopeOp) :
    Stacked (t.run ops).stack.scopes := by
  induction ops generalizing t with
  | nil => exact h
  | cons op ops ih => exact ih ((step_moves t op).stacked h)

theorem Stacked.levels {a : List Scope} (h : Stacked a) :
    a.reverse.map (·.level) = List.range a.length := by
  induction a with
  | nil => rfl
  | cons scope outer ih =>
    rw [List.reverse_cons, List.map_append, ih h.2, List.length_cons, List.range_succ, ← h.1]
    rfl

/-! ## Balanced stretches -/

/-- The operations close every scope that they open and no other, and enter nothing where they
began. -/
def Balanced (ops : List ScopeOp) : Prop :=
  ops.foldlM (fun depth op => op.depth? depth) 0 = some 0

/-- The scopes from before the stretch stay where they are, beneath those that it opens. -/
theorem Moves.depth {op : ScopeOp} {top base b : List Scope} {depth : Nat}
    (h : Moves op (top ++ base) b) (hbase : base ≠ [])
    (hdepth : op.depth? top.length = some depth) :
    ∃ top', b = top' ++ base ∧ top'.length = depth := by
  generalize ha : top ++ base = a at h
  cases h with
  | enter =>
    cases top with
    | nil => cases hdepth
    | cons scope top =>
      obtain ⟨-, rfl⟩ := List.cons.inj ha
      exact ⟨_ :: top, rfl, Option.some.inj hdepth⟩
  | push =>
    subst ha
    exact ⟨_ :: top, rfl, Option.some.inj hdepth⟩
  | pop =>
    cases top with
    | nil => cases hdepth
    | cons scope top =>
      obtain ⟨-, hrest⟩ := List.cons.inj ha
      exact ⟨top, hrest.symm, Option.some.inj hdepth⟩
  | global =>
    cases top with
    | nil => cases hdepth
    | cons scope top =>
      obtain ⟨-, hrest⟩ := List.cons.inj ha
      exact absurd (List.append_eq_nil_iff.1 hrest).2 hbase
  | look hlook =>
    refine ⟨top, ha.symm, Option.some.inj ?_⟩
    rw [← hdepth]
    cases op <;> first | rfl | cases hlook

theorem scopes_run {top base : List Scope} (hbase : base ≠ []) {ops : List ScopeOp}
    (hscopes : t.stack.scopes = top ++ base)
    (hops : ops.foldlM (fun depth op => op.depth? depth) top.length = some 0) :
    (t.run ops).stack.scopes = base := by
  induction ops generalizing t top with
  | nil =>
    obtain rfl : top = [] := List.length_eq_zero_iff.1 (Option.some.inj hops)
    exact hscopes
  | cons op ops ih =>
    rw [List.foldlM_cons] at hops
    obtain ⟨depth, hdepth, hrest⟩ := Option.bind_eq_some_iff.1 hops
    obtain ⟨top', hscopes', rfl⟩ := (hscopes ▸ step_moves t op).depth hbase hdepth
    exact ih hscopes' hrest

/-- **A balanced stretch leaves the open scopes as they were**. -/
theorem Balanced.scopes_eq {ops : List ScopeOp} (h : Balanced ops) (t : TrackedSession) :
    (t.run ops).stack.scopes = t.stack.scopes := by
  have hscopes : t.stack.scopes = [] ++ t.stack.scopes := rfl
  exact scopes_run (List.cons_ne_nil _ _) hscopes h

/-- A name that is entered further in hides another one no longer than the stretch lasts. -/
example : Balanced [.lookup "x", .push, .enter "x", .push, .pop, .pop] := rfl

/-! ## Sessions without the account -/

/-- The session without the account of it. -/
def session (t : TrackedSession) : Session :=
  ⟨t.stack, t.held.map (·.entry), t.closed.map (·.2)⟩

/-- What is looked up and found is held. -/
theorem session_hold {found : Option EntryRef}
    (hstep : ∀ e, found = some e →
      Session.Step t.session ⟨t.stack, e :: t.session.held, t.session.closed⟩) :
    Relation.ReflTransGen Session.Step t.session (t.hold found number name).session := by
  cases found with
  | none => exact .refl
  | some e => exact .single (hstep e rfl)

theorem session_enterClosed (t : TrackedSession) (table : Nat) (name : String) :
    Relation.ReflTransGen Session.Step t.session (t.step (.enterClosed table name)).session := by
  simp only [step]
  split
  · exact .refl
  · next number scope htable =>
    have hscope : (t.closed.map (·.2))[table]? = some scope := by
      rw [List.getElem?_map, htable]
      rfl
    obtain ⟨before, behind, hclosed, hset⟩ := exists_split hscope
    refine .single ?_
    simp only [session, hold, List.map_set, hset]
    rw [hclosed]
    exact .enterClosed name

/-- Keeping account of a session takes no step of its own. -/
theorem session_step (t : TrackedSession) (op : ScopeOp) :
    Relation.ReflTransGen Session.Step t.session (t.step op).session := by
  cases op with
  | enter name => exact .single (.enter name)
  | lookup name => exact session_hold fun e he => .lookup he
  | lookupLocal name => exact session_hold fun e he => .lookupLocal he
  | record handle line =>
    simp only [step]
    split
    · exact .refl
    · next h hhandle =>
      exact .single (.record line (List.mem_map_of_mem (List.mem_of_getElem? hhandle)))
  | push => exact .single .push
  | pop =>
    refine .single ?_
    have hpop : Session.Step t.session
        ⟨t.stack.pop.2, t.session.held, t.stack.pop.1.toList ++ t.session.closed⟩ := .pop
    simp only [step]
    cases h : t.stack.pop with
    | mk found stack =>
      rw [h] at hpop
      cases found <;> exact hpop
  | enterClosed table name => exact session_enterClosed t table name
  | lookupClosed table name =>
    simp only [step]
    split
    · exact .refl
    · next number scope htable =>
      have hmem := List.mem_map_of_mem (f := (·.2)) (List.mem_of_getElem? htable)
      exact session_hold fun e he => .lookupClosed hmem he

/-- The open scopes of a session with its account are those of a session. -/
theorem reachable_run (ops : List ScopeOp) : (start.run ops).stack.Reachable := by
  have hrun : ∀ t : TrackedSession,
      Relation.ReflTransGen Session.Step t.session (t.run ops).session := by
    induction ops with
    | nil => exact fun t => .refl
    | cons op ops ih => exact fun t => (session_step t op).trans (ih (t.step op))
  exact ⟨_, _, hrun start⟩

/-! ## Entries and handles -/

/-- The entry can be come by: it is held, or stands in one of the scopes. -/
def Knows (t : TrackedSession) (e : EntryRef) : Prop :=
  (∃ h ∈ t.held, h.entry = e) ∨ ∃ i ∈ t.scopes, ∃ key, (key, e) ∈ i.2.entries

namespace Traced

theorem exists_origin (h : t.Traced origins) (he : t.Knows e) :
    ∃ number, origins[e.index]? = some (number, e.name) := by
  rcases he with ⟨handle, hhandle, rfl⟩ | ⟨i, hi, key, he⟩
  · obtain ⟨hname, horigin⟩ := h.held handle hhandle
    exact ⟨_, hname ▸ horigin⟩
  · obtain rfl : e.name = key := h.filed.keyed i hi _ he
    exact ⟨_, h.filed.entries i hi _ he⟩

/-- Whoever shares the place of an entry in the ledger is that entry. -/
theorem eq_of_index (h : t.Traced origins) (he : t.Knows e) (hf : t.Knows f)
    (hindex : e.index = f.index) : e = f := by
  obtain ⟨number, he⟩ := h.exists_origin he
  obtain ⟨number', hf⟩ := h.exists_origin hf
  rw [hindex, hf] at he
  obtain ⟨-, hname⟩ := Prod.mk.inj (Option.some.inj he)
  exact EntryRef.eq_of_name hname.symm hindex

/-- A handle holds what the scope that it is from finds under its name. -/
theorem lookup?_origin (h : t.Traced origins) {handle : Handle} (hhandle : handle ∈ t.held) :
    ∃ scope, (handle.origin, scope) ∈ t.scopes ∧
      scope.lookup? handle.name = some handle.entry := by
  obtain ⟨hname, horigin⟩ := h.held handle hhandle
  obtain ⟨⟨number, scope⟩, hi, hnumber, hsome⟩ :=
    h.filed.holders _ (List.mem_of_getElem? horigin)
  obtain ⟨e, hfound⟩ := Option.isSome_iff_exists.1 hsome
  obtain rfl : number = handle.origin := hnumber
  have hknows : t.Knows e := .inr ⟨_, hi, _, Scope.mem_of_lookup? hfound⟩
  have hindex := h.filed.index_eq (h.found hi hfound).2 horigin
  have heq := h.eq_of_index hknows (.inl ⟨handle, hhandle, rfl⟩) hindex
  exact ⟨scope, hi, heq ▸ hfound⟩

/-- Two handles are the same entry exactly if they are from the same scope, under the same name. -/
theorem entry_eq_iff (h : t.Traced origins) {handle other : Handle} (hhandle : handle ∈ t.held)
    (hother : other ∈ t.held) :
    handle.entry = other.entry ↔ handle.origin = other.origin ∧ handle.name = other.name := by
  obtain ⟨hname, horigin⟩ := h.held handle hhandle
  obtain ⟨hname', horigin'⟩ := h.held other hother
  constructor
  · intro heq
    rw [heq, horigin'] at horigin
    exact Prod.mk.inj (Option.some.inj horigin.symm)
  · rintro ⟨hnumber, hsame⟩
    rw [hnumber, hsame] at horigin
    exact h.eq_of_index (.inl ⟨handle, hhandle, rfl⟩) (.inl ⟨other, hother, rfl⟩)
      (h.filed.index_eq horigin horigin')

/-- A line that is recorded through a handle is a line of its entry, and of no other. -/
theorem linesOf_record (h : t.Traced origins) {handle : Handle} (hhandle : handle ∈ t.held)
    (line : UInt32) (he : t.Knows e) : (t.stack.record handle.entry line).linesOf e =
      t.stack.linesOf e ++ if e = handle.entry then [line] else [] := by
  have hknows : t.Knows handle.entry := .inl ⟨handle, hhandle, rfl⟩
  have hbound : handle.entry.index < t.stack.ledger.lines.size := by
    rw [← h.filed.size]
    exact (List.getElem?_eq_some_iff.1 (h.held handle hhandle).2).1
  have hsame : e.index = handle.entry.index ↔ e = handle.entry :=
    ⟨h.eq_of_index he hknows, congrArg EntryRef.index⟩
  simp only [ScopeStack.linesOf, ScopeStack.record, Ledger.linesOf_record hbound, hsame]

end Traced

/-- The scopes of a session nest, and every entry belongs to one of them. -/
structure Nests (t : TrackedSession) : Prop where
  /-- Its open scopes are those of a session without the account. -/
  reachable : t.stack.Reachable
  nonempty : t.stack.scopes ≠ []
  levels : t.stack.scopes.reverse.map (·.level) = List.range t.stack.scopes.length
  numbers : (t.scopes.map (·.1)).Nodup
  /-- The key of every entry is its name. -/
  keyed : ∀ i ∈ t.scopes, ∀ key e, (key, e) ∈ i.2.entries → e.name = key
  /-- A scope finds every entry under its key, and nothing else. -/
  keys : ∀ i ∈ t.scopes, ∀ key e, i.2.lookup? key = some e ↔ (key, e) ∈ i.2.entries
  origins : ∀ h ∈ t.held, ∃ scope, (h.origin, scope) ∈ t.scopes ∧
    scope.lookup? h.name = some h.entry
  same : ∀ h ∈ t.held, ∀ h' ∈ t.held,
    h.entry = h'.entry ↔ h.origin = h'.origin ∧ h.name = h'.name
  /-- No two entries share a place in the ledger. -/
  places : ∀ e f, t.Knows e → t.Knows f → e.index = f.index → e = f
  entered : ∀ name e, t.stack.lookupLocal? name = some e → t.stack.enter name = (e, t.stack)
  innermost : ∀ name e, t.stack.lookup? name = some e ↔ ∃ inner scope outer,
    t.stack.scopes = inner ++ scope :: outer ∧ scope.lookup? name = some e ∧
      ∀ s ∈ inner, s.lookup? name = none
  recorded : ∀ h ∈ t.held, ∀ line e, t.Knows e →
    (t.stack.record h.entry line).linesOf e =
      t.stack.linesOf e ++ if e = h.entry then [line] else []
  stretches : ∀ ops, Balanced ops → ∀ name,
    (t.run ops).stack.lookup? name = t.stack.lookup? name

/-- **Scopes nest**, whatever is done with them and with what was obtained from them. -/
theorem scopes_nest (ops : List ScopeOp) : (start.run ops).Nests := by
  obtain ⟨origins, h⟩ := traced_start.run ops
  exact
    { reachable := reachable_run ops
      nonempty := List.cons_ne_nil _ _
      levels := (stacked_run (t := start) ⟨rfl, trivial⟩ ops).levels
      numbers := h.filed.numbers
      keyed := fun i hi key e he => h.filed.keyed i hi _ he
      keys := fun i hi key e => h.filed.lookup?_iff hi
      origins := fun handle hhandle => h.lookup?_origin hhandle
      same := fun handle hhandle other hother => h.entry_eq_iff hhandle hother
      places := fun e f he hf => h.eq_of_index he hf
      entered := fun name e he => ScopeStack.enter_of_lookupLocal? he
      innermost := fun name e => List.findSome?_eq_some_iff
      recorded := fun handle hhandle line e he => h.linesOf_record hhandle line he
      stretches := fun more hmore name => by
        rw [ScopeStack.lookup?, hmore.scopes_eq]
        rfl }

end TrackedSession

end PascalBlock
