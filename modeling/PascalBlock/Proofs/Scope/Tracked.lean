import Mathlib.Data.List.Nodup
import PascalBlock.Proofs.Scope.Uses

/-!
# Which scope an entry is from

A session in which the scopes are numbered as they are opened, and in which every handle tells for
which name and from which scope it was obtained. Behind the scopes there is a list that tells the
same of every place in the ledger (`Filed`): no scope and name come twice in it, so an entry is
known by its scope and its name. Every operation keeps that up (`Traced.step`), and so does a run.
-/

namespace PascalBlock

/-- An entry that was obtained for a name from the scope with the number `origin`. -/
structure Handle where
  entry : EntryRef
  origin : Nat
  name : String

/-- What can be done. Handles and closed scopes are counted from the latest one on. -/
inductive ScopeOp where
  | enter (name : String)
  | lookup (name : String)
  | lookupLocal (name : String)
  | record (handle : Nat) (line : UInt32)
  | push
  | pop
  | enterClosed (table : Nat) (name : String)
  | lookupClosed (table : Nat) (name : String)

namespace ScopeOp

/-- The operations that leave the open scopes as they are. -/
def looksOn : ScopeOp → Bool
  | enter _ | push | pop => false
  | _ => true

/-- How many of the scopes that were opened in a stretch are open behind an operation, where `depth`
were open before it. What changes the scopes from before the stretch has no place in it. -/
def depth? : ScopeOp → Nat → Option Nat
  | push, depth => some (depth + 1)
  | pop, depth + 1 => some depth
  | enter _, depth + 1 => some (depth + 1)
  | pop, 0 | enter _, 0 => none
  | _, depth => some depth

end ScopeOp

/-- A session that keeps account of the scopes. -/
structure TrackedSession where
  stack : ScopeStack
  /-- The numbers of the open scopes, from the innermost outwards. -/
  numbers : List Nat
  /-- The closed scopes with their numbers. -/
  closed : List (Nat × Scope)
  held : List Handle
  /-- How many scopes were opened so far. -/
  opened : Nat

namespace TrackedSession

/-- At the start there is the global scope. -/
def start : TrackedSession := ⟨.initial, [0], [], [], 1⟩

/-- The open scopes with their numbers. -/
def living (t : TrackedSession) : List (Nat × Scope) := t.numbers.zip t.stack.scopes

/-- All scopes there ever were, with their numbers. -/
def scopes (t : TrackedSession) : List (Nat × Scope) := t.living ++ t.closed

/-- The number of the innermost scope. -/
def innermost (t : TrackedSession) : Nat := t.numbers.headD 0

/-- The number of the innermost open scope that holds a name. -/
def holder (t : TrackedSession) (name : String) : Nat :=
  ((t.living.find? fun i => (i.2.lookup? name).isSome).map (·.1)).getD 0

/-- What was found is held from now on. -/
def hold (t : TrackedSession) (found : Option EntryRef) (origin : Nat) (name : String) :
    TrackedSession :=
  { t with held := found.toList.map (⟨·, origin, name⟩) ++ t.held }

def step (t : TrackedSession) : ScopeOp → TrackedSession
  | .enter name =>
    let (e, stack) := t.stack.enter name
    { t with stack }.hold (some e) t.innermost name
  | .lookup name => t.hold (t.stack.lookup? name) (t.holder name) name
  | .lookupLocal name => t.hold (t.stack.lookupLocal? name) t.innermost name
  | .record handle line =>
    match t.held[handle]? with
    | none => t
    | some h => { t with stack := t.stack.record h.entry line }
  | .push =>
    { t with stack := t.stack.push, numbers := t.opened :: t.numbers, opened := t.opened + 1 }
  | .pop =>
    match t.stack.pop with
    | (none, stack) => { t with stack }
    | (some scope, stack) =>
      { t with stack, numbers := t.numbers.tail, closed := (t.innermost, scope) :: t.closed }
  | .enterClosed table name =>
    match t.closed[table]? with
    | none => t
    | some (number, scope) =>
      let (e, scope', stack) := t.stack.enterClosed scope name
      { t with stack, closed := t.closed.set table (number, scope') }.hold (some e) number name
  | .lookupClosed table name =>
    match t.closed[table]? with
    | none => t
    | some (number, scope) => t.hold (scope.lookup? name) number name

/-- One operation after the other. -/
def run (t : TrackedSession) (ops : List ScopeOp) : TrackedSession := ops.foldl step t

end TrackedSession

/-! ## Who is filed where -/

section
variable {scopes before behind : List (Nat × Scope)} {origins more : List (Nat × String)}
  {l : Ledger} {number : Nat} {scope : Scope} {name : String} {e f : EntryRef}

theorem EntryRef.eq_of_name (hname : e.name = f.name) (hindex : e.index = f.index) : e = f := by
  cases e
  cases f
  cases hname
  cases hindex
  rfl

/-- A name that is entered is found as what it got, and all others are found as before. -/
theorem Scope.lookup?_enter (h : scope.lookup? name = none) (other : String) :
    (scope.enter l name).2.1.lookup? other =
      if other = name then some ⟨name, l.lines.size⟩ else scope.lookup? other := by
  rw [enter_of_not_lookup? h]
  exact lookup_insert h _ other

theorem getElem?_append_of_some {α : Type} {as bs : List α} {i : Nat} {a : α}
    (h : as[i]? = some a) : (as ++ bs)[i]? = some a := by
  rw [List.getElem?_append_left (List.getElem?_eq_some_iff.1 h).1, h]

/-- A list with one of its elements, and with another one in its place. -/
theorem exists_split {α : Type} {as : List α} {i : Nat} {a : α} (h : as[i]? = some a) :
    ∃ before behind, as = before ++ a :: behind ∧ ∀ b, as.set i b = before ++ b :: behind := by
  obtain ⟨hlt, rfl⟩ := List.getElem?_eq_some_iff.1 h
  refine ⟨as.take i, as.drop (i + 1), ?_, fun b => ?_⟩
  · rw [List.getElem_cons_drop, List.take_append_drop]
  · rw [List.set_eq_take_append_cons_drop, if_pos hlt]

/-- When one element of a list is replaced, all others stay. -/
theorem mem_replaced {α : Type} {as bs : List α} {a b : α} (h : a ∈ as ++ b :: bs) :
    a = b ∨ ∀ c, a ∈ as ++ c :: bs := by
  rcases List.mem_append.1 h with h | h
  · exact .inr fun c => List.mem_append_left _ h
  rcases List.mem_cons.1 h with h | h
  · exact .inl h
  · exact .inr fun c => List.mem_append_right _ (List.mem_cons_of_mem _ h)

/-- The places of the ledger belong to the scopes and names in `origins`, one to each. -/
structure Filed (scopes : List (Nat × Scope)) (origins : List (Nat × String)) (l : Ledger) :
    Prop where
  size : origins.length = l.lines.size
  numbers : (scopes.map (·.1)).Nodup
  keyed : ∀ i ∈ scopes, i.2.Keyed
  entries : ∀ i ∈ scopes, ∀ x ∈ i.2.entries, origins[x.2.index]? = some (i.1, x.1)
  once : origins.Nodup
  holders : ∀ o ∈ origins, ∃ i ∈ scopes, i.1 = o.1 ∧ (i.2.lookup? o.2).isSome

namespace Filed

theorem perm {others : List (Nat × Scope)} (h : Filed scopes origins l)
    (hperm : scopes.Perm others) : Filed others origins l where
  size := h.size
  numbers := (hperm.map _).nodup_iff.1 h.numbers
  keyed i hi := h.keyed i (hperm.mem_iff.2 hi)
  entries i hi := h.entries i (hperm.mem_iff.2 hi)
  once := h.once
  holders o ho := by
    obtain ⟨i, hi, hfound⟩ := h.holders o ho
    exact ⟨i, hperm.mem_iff.1 hi, hfound⟩

/-- A scope that is opened holds nothing. -/
theorem cons (h : Filed scopes origins l) (level : Nat) (hnew : ∀ i ∈ scopes, i.1 ≠ number) :
    Filed ((number, .empty level) :: scopes) origins l where
  size := h.size
  numbers := by
    refine List.nodup_cons.2 ⟨fun hmem => ?_, h.numbers⟩
    obtain ⟨i, hi, hnumber⟩ := List.mem_map.1 hmem
    exact hnew i hi hnumber
  keyed := List.forall_mem_cons.2 ⟨Scope.keyed_empty level, h.keyed⟩
  entries := List.forall_mem_cons.2 ⟨List.forall_mem_nil _, h.entries⟩
  once := h.once
  holders o ho := by
    obtain ⟨i, hi, hfound⟩ := h.holders o ho
    exact ⟨i, List.mem_cons_of_mem _ hi, hfound⟩

/-- A line is recorded in a place that is there already. -/
theorem record (h : Filed scopes origins l) (e : EntryRef) (line : UInt32) :
    Filed scopes origins (l.record e line) :=
  { h with size := h.size.trans Array.size_modify.symm }

/-- An entry is known by its scope and its name. -/
theorem index_eq (h : Filed scopes origins l) {o : Nat × String} {i j : Nat}
    (hi : origins[i]? = some o) (hj : origins[j]? = some o) : i = j :=
  (List.getElem?_inj (List.getElem?_eq_some_iff.1 hi).1 h.once).1 (hi.trans hj.symm)

/-- No key of a scope is there twice. -/
theorem eq_of_key (h : Filed scopes origins l) {i : Nat × Scope} (hi : i ∈ scopes)
    (he : (name, e) ∈ i.2.entries) (hf : (name, f) ∈ i.2.entries) : e = f :=
  EntryRef.eq_of_name ((h.keyed i hi _ he).trans (h.keyed i hi _ hf).symm)
    (h.index_eq (h.entries i hi _ he) (h.entries i hi _ hf))

/-- A scope finds every entry under its key. -/
theorem lookup?_iff (h : Filed scopes origins l) {i : Nat × Scope} (hi : i ∈ scopes) :
    i.2.lookup? name = some e ↔ (name, e) ∈ i.2.entries := by
  refine ⟨Scope.mem_of_lookup?, fun he => ?_⟩
  cases hfound : i.2.lookup? name with
  | none => simpa using List.lookup_eq_none_iff.1 hfound _ he
  | some f => rw [h.eq_of_key hi (Scope.mem_of_lookup? hfound) he]

theorem eq_of_number (h : Filed scopes origins l) {i j : Nat × Scope} (hi : i ∈ scopes)
    (hj : j ∈ scopes) (hnumber : i.1 = j.1) : i = j :=
  List.inj_on_of_nodup_map h.numbers hi hj hnumber

/-- A name that a scope does not hold is not filed for it. -/
theorem notMem_of_not_lookup? (h : Filed (before ++ (number, scope) :: behind) origins l)
    (hnone : scope.lookup? name = none) : (number, name) ∉ origins := by
  intro ho
  obtain ⟨i, hi, hnumber, hsome⟩ := h.holders _ ho
  obtain rfl : i = (number, scope) := h.eq_of_number hi (by simp) hnumber
  rw [hnone] at hsome
  cases hsome

/-- A new name gets the next place of the ledger, and is filed there. -/
theorem enter_new (h : Filed (before ++ (number, scope) :: behind) origins l)
    (hnone : scope.lookup? name = none) :
    Filed (before ++ (number, (scope.enter l name).2.1) :: behind) (origins ++ [(number, name)])
      (scope.enter l name).2.2 where
  size := by
    rw [List.length_append, h.size, Scope.enter_of_not_lookup? hnone]
    exact (Array.size_push _).symm
  numbers := by
    have hnumbers := h.numbers
    rw [List.map_append, List.map_cons] at hnumbers ⊢
    exact hnumbers
  keyed := by
    intro i hi
    rcases mem_replaced hi with rfl | hi
    · exact (h.keyed (number, scope) (by simp)).enter l name
    · exact h.keyed i (hi _)
  entries := by
    intro i hi x hx
    rcases mem_replaced hi with rfl | hi
    · rw [Scope.enter_of_not_lookup? hnone] at hx
      rcases Scope.mem_insert.1 hx with rfl | hx
      · rw [← h.size, List.getElem?_concat_length]
      · exact getElem?_append_of_some (h.entries (number, scope) (by simp) x hx)
    · exact getElem?_append_of_some (h.entries i (hi _) x hx)
  once := by
    rw [← List.concat_eq_append]
    exact h.once.concat (h.notMem_of_not_lookup? hnone)
  holders := by
    refine List.forall_mem_append.2 ⟨fun o ho => ?_, List.forall_mem_singleton.2 ?_⟩
    · obtain ⟨i, hi, hnumber, hsome⟩ := h.holders o ho
      rcases mem_replaced hi with rfl | hi
      · refine ⟨_, List.mem_append_right _ List.mem_cons_self, hnumber, ?_⟩
        rw [Scope.lookup?_enter hnone]
        split
        · rfl
        · exact hsome
      · exact ⟨i, hi _, hnumber, hsome⟩
    · refine ⟨_, List.mem_append_right _ List.mem_cons_self, rfl, ?_⟩
      rw [Scope.lookup?_enter hnone, if_pos rfl]
      rfl

/-- An entry that was obtained from a scope is filed there. -/
theorem enter (h : Filed (before ++ (number, scope) :: behind) origins l) (name : String) :
    ∃ more, Filed (before ++ (number, (scope.enter l name).2.1) :: behind) (origins ++ more)
        (scope.enter l name).2.2 ∧
      (scope.enter l name).1.name = name ∧
      (origins ++ more)[(scope.enter l name).1.index]? = some (number, name) := by
  cases hfound : scope.lookup? name with
  | some e =>
    have hmem : (number, scope) ∈ before ++ (number, scope) :: behind := by simp
    rw [Scope.enter_of_lookup? hfound]
    refine ⟨[], by rwa [List.append_nil], (h.keyed _ hmem).name_eq hfound, ?_⟩
    rw [List.append_nil]
    exact h.entries _ hmem _ (Scope.mem_of_lookup? hfound)
  | none =>
    refine ⟨_, h.enter_new hfound, ?_⟩
    rw [Scope.enter_of_not_lookup? hfound, ← h.size, List.getElem?_concat_length]
    exact ⟨rfl, rfl⟩

end Filed

end

namespace TrackedSession

variable {t t' : TrackedSession} {origins : List (Nat × String)} {name : String} {e f : EntryRef}
  {number : Nat} {scope : Scope} {before behind : List (Nat × Scope)}

/-! ## The account of a session -/

/-- The account is right: the places of the ledger are filed as `origins` says, and the handles are
from there. -/
structure Traced (t : TrackedSession) (origins : List (Nat × String)) : Prop where
  filed : Filed t.scopes origins t.stack.ledger
  length : t.numbers.length = t.stack.scopes.length
  opened : ∀ i ∈ t.scopes, i.1 < t.opened
  held : ∀ h ∈ t.held, h.entry.name = h.name ∧ origins[h.entry.index]? = some (h.origin, h.name)

theorem traced_start : start.Traced [] := by
  have hscopes : start.scopes = [(0, .empty 0)] := rfl
  refine ⟨⟨rfl, ?_, ?_, ?_, .nil, nofun⟩, rfl, ?_, nofun⟩
  · rw [hscopes]
    exact List.nodup_singleton _
  · rw [hscopes]
    exact List.forall_mem_singleton.2 (Scope.keyed_empty 0)
  · rw [hscopes]
    exact List.forall_mem_singleton.2 (List.forall_mem_nil _)
  · rw [hscopes]
    exact List.forall_mem_singleton.2 Nat.zero_lt_one

/-- The innermost scope comes first. -/
theorem living_eq (h : t.numbers.length = t.stack.scopes.length) : t.living =
    (t.innermost, t.stack.innermost) :: t.numbers.tail.zip t.stack.outer := by
  simp only [living, innermost, ScopeStack.scopes] at h ⊢
  cases hnumbers : t.numbers with
  | nil => simp [hnumbers] at h
  | cons number numbers => rfl

theorem scopes_eq (h : t.numbers.length = t.stack.scopes.length) : t.scopes =
    (t.innermost, t.stack.innermost) :: (t.numbers.tail.zip t.stack.outer ++ t.closed) := by
  rw [scopes, living_eq h]
  rfl

/-- A name that is found is held by the scope that the account names. -/
theorem find?_holder {numbers : List Nat} {stack : List Scope}
    (hlength : numbers.length = stack.length)
    (he : stack.findSome? (·.lookup? name) = some e) : ∃ number scope,
      (numbers.zip stack).find? (fun i => (i.2.lookup? name).isSome) = some (number, scope) ∧
        scope.lookup? name = some e := by
  induction stack generalizing numbers with
  | nil => cases he
  | cons scope stack ih =>
    cases numbers with
    | nil => cases hlength
    | cons number numbers =>
      rw [List.zip_cons_cons, List.find?_cons]
      cases hfound : scope.lookup? name with
      | some f =>
        rw [List.findSome?_cons_of_isSome (by rw [hfound]; rfl), hfound] at he
        exact ⟨number, scope, by simp, by rw [hfound, he]⟩
      | none =>
        rw [List.findSome?_cons_of_isNone (by rw [hfound]; rfl)] at he
        simpa [hfound] using ih (Nat.succ.inj hlength) he

/-- What is found in the open scopes is held by the scope that the account names. -/
theorem holder_mem (hlength : t.numbers.length = t.stack.scopes.length)
    (he : t.stack.lookup? name = some e) :
    ∃ scope, (t.holder name, scope) ∈ t.scopes ∧ scope.lookup? name = some e := by
  obtain ⟨number, scope, hfind, hfound⟩ := find?_holder hlength he
  have hholder : t.holder name = number := by rw [holder, living, hfind]; rfl
  refine ⟨scope, ?_, hfound⟩
  rw [hholder]
  exact List.mem_append_left _ (List.mem_of_find?_eq_some hfind)

namespace Traced

/-- What a scope finds is filed under that scope. -/
theorem found (h : t.Traced origins) (hscope : (number, scope) ∈ t.scopes)
    (he : scope.lookup? name = some e) :
    e.name = name ∧ origins[e.index]? = some (number, name) := by
  exact ⟨(h.filed.keyed _ hscope).name_eq he, h.filed.entries _ hscope _ (Scope.mem_of_lookup? he)⟩

theorem hold (h : t.Traced origins) {found : Option EntryRef}
    (hfound : ∀ e, found = some e → e.name = name ∧ origins[e.index]? = some (number, name)) :
    (t.hold found number name).Traced origins where
  filed := h.filed
  length := h.length
  opened := h.opened
  held := by
    refine List.forall_mem_append.2 ⟨fun handle hhandle => ?_, h.held⟩
    obtain ⟨e, he, rfl⟩ := List.mem_map.1 hhandle
    exact hfound e (Option.mem_toList.1 he)

/-- A name is entered into one of the scopes, and all others stay. -/
theorem entered (h : t.Traced origins) (hscopes : t.scopes = before ++ (number, scope) :: behind)
    (hscopes' : t'.scopes =
      before ++ (number, (scope.enter t.stack.ledger name).2.1) :: behind)
    (hledger : t'.stack.ledger = (scope.enter t.stack.ledger name).2.2)
    (hlength : t'.numbers.length = t'.stack.scopes.length) (hopened : t'.opened = t.opened)
    (hheld : t'.held = t.held) :
    ∃ more, (t'.hold (some (scope.enter t.stack.ledger name).1) number name).Traced
      (origins ++ more) := by
  obtain ⟨more, hfiled, hname, horigin⟩ := (hscopes ▸ h.filed).enter name
  refine ⟨more, Traced.hold ⟨?_, hlength, ?_, ?_⟩ ?_⟩
  · rwa [hscopes', hledger]
  · intro i hi
    rw [hscopes'] at hi
    rw [hopened]
    rcases mem_replaced hi with rfl | hi
    · exact h.opened (number, scope) (by simp [hscopes])
    · exact h.opened i (hscopes ▸ hi _)
  · rw [hheld]
    intro handle hhandle
    obtain ⟨hentry, hfrom⟩ := h.held handle hhandle
    exact ⟨hentry, getElem?_append_of_some hfrom⟩
  · rintro e ⟨⟩
    exact ⟨hname, horigin⟩

theorem lookup (h : t.Traced origins) (name : String) :
    (t.step (.lookup name)).Traced origins := by
  refine h.hold fun e he => ?_
  obtain ⟨scope, hmem, hfound⟩ := holder_mem h.length he
  exact h.found hmem hfound

theorem lookupLocal (h : t.Traced origins) (name : String) :
    (t.step (.lookupLocal name)).Traced origins := by
  have hmem : (t.innermost, t.stack.innermost) ∈ t.scopes := by
    rw [scopes_eq h.length]
    exact List.mem_cons_self
  exact h.hold fun e he => h.found hmem he

theorem lookupClosed (h : t.Traced origins) (table : Nat) (name : String) :
    (t.step (.lookupClosed table name)).Traced origins := by
  simp only [TrackedSession.step]
  split
  · exact h
  · next number scope htable =>
    have hmem := List.mem_append_right t.living (List.mem_of_getElem? htable)
    exact h.hold fun e he => h.found hmem he

theorem enter (h : t.Traced origins) (name : String) :
    ∃ more, (t.step (.enter name)).Traced (origins ++ more) := by
  have hscopes : t.scopes = [] ++ (t.innermost, t.stack.innermost) ::
      (t.numbers.tail.zip t.stack.outer ++ t.closed) := scopes_eq h.length
  exact h.entered hscopes (scopes_eq (t := { t with stack := (t.stack.enter name).2 }) h.length)
    rfl h.length rfl rfl

theorem enterClosed (h : t.Traced origins) (table : Nat) (name : String) :
    ∃ more, (t.step (.enterClosed table name)).Traced (origins ++ more) := by
  simp only [TrackedSession.step]
  split
  · exact ⟨[], by rwa [List.append_nil]⟩
  · next number scope htable =>
    obtain ⟨before, behind, hclosed, hset⟩ := exists_split htable
    have hscopes : t.scopes = (t.living ++ before) ++ (number, scope) :: behind := by
      rw [scopes, hclosed, List.append_assoc]
    refine h.entered hscopes ?_ rfl h.length rfl rfl
    rw [List.append_assoc, ← hset]
    rfl

theorem record (h : t.Traced origins) (handle : Nat) (line : UInt32) :
    (t.step (.record handle line)).Traced origins := by
  simp only [TrackedSession.step]
  split
  · exact h
  · exact { h with filed := h.filed.record _ line }

theorem push (h : t.Traced origins) : (t.step .push).Traced origins where
  filed := h.filed.cons _ fun i hi => Nat.ne_of_lt (h.opened i hi)
  length := congrArg Nat.succ h.length
  opened := List.forall_mem_cons.2
    ⟨Nat.lt_succ_self _, fun i hi => Nat.lt_succ_of_lt (h.opened i hi)⟩
  held := h.held

theorem pop (h : t.Traced origins) : (t.step .pop).Traced origins := by
  have hlength := h.length
  have hscopes := scopes_eq hlength
  simp only [TrackedSession.step, ScopeStack.pop]
  cases houter : t.stack.outer with
  | nil => exact h
  | cons next rest =>
    simp only [houter] at hscopes
    have hperm : t.scopes.Perm
        (t.numbers.tail.zip (next :: rest) ++ (t.innermost, t.stack.innermost) :: t.closed) := by
      rw [hscopes]
      exact List.perm_middle.symm
    refine ⟨h.filed.perm hperm, ?_, fun i hi => h.opened i (hperm.mem_iff.2 hi), h.held⟩
    simp only [ScopeStack.scopes, houter, List.length_cons, List.length_tail] at hlength ⊢
    omega

/-- **Every operation keeps the account right**; one place at most is filed new. -/
theorem step (h : t.Traced origins) (op : ScopeOp) :
    ∃ more, (t.step op).Traced (origins ++ more) := by
  cases op with
  | enter name => exact h.enter name
  | enterClosed table name => exact h.enterClosed table name
  | lookup name => exact ⟨[], by simpa using h.lookup name⟩
  | lookupLocal name => exact ⟨[], by simpa using h.lookupLocal name⟩
  | lookupClosed table name => exact ⟨[], by simpa using h.lookupClosed table name⟩
  | record handle line => exact ⟨[], by simpa using h.record handle line⟩
  | push => exact ⟨[], by simpa using h.push⟩
  | pop => exact ⟨[], by simpa using h.pop⟩

theorem run (h : t.Traced origins) (ops : List ScopeOp) :
    ∃ more, (t.run ops).Traced (origins ++ more) := by
  induction ops generalizing t origins with
  | nil => exact ⟨[], by rwa [List.append_nil]⟩
  | cons op ops ih =>
    obtain ⟨more, hstep⟩ := h.step op
    obtain ⟨more', hrun⟩ := ih hstep
    rw [List.append_assoc] at hrun
    exact ⟨_, hrun⟩

end Traced

end TrackedSession

end PascalBlock
