import Mathlib.Logic.Relation
import PascalBlock.Scope

/-!
# What becomes of the open scopes

Whoever works with the scopes also holds references and the scopes that were closed. `Step` has one
rule for each thing that can be done, and what can be reached that way is `Sound`: every reference
in an open scope has its own place in the ledger, whatever else is held or was closed.
-/

namespace PascalBlock

/-! ## One scope -/

namespace Scope

variable {s : Scope} {l : Ledger} {key name : String} {e : EntryRef} {es : List (String × EntryRef)}

theorem sublist_insert (key : String) (e : EntryRef) (es : List (String × EntryRef)) :
    es.Sublist (insert key e es) := by
  induction es with
  | nil => exact List.nil_sublist _
  | cons i es ih =>
    unfold insert
    split
    · exact List.sublist_cons_self _ _
    · exact ih.cons_cons i

/-- A key that is new is found where it was put, and all others are found as before. -/
theorem lookup_insert (h : es.lookup key = none) (e : EntryRef) (other : String) :
    (insert key e es).lookup other = if other = key then some e else es.lookup other := by
  by_cases hother : other = key
  · subst hother
    rw [if_pos rfl]
    induction es with
    | nil => exact List.lookup_cons_self
    | cons i es ih =>
      rw [List.lookup_cons] at h
      split at h
      · cases h
      · next hi =>
        unfold insert
        split
        · exact List.lookup_cons_self
        · rw [List.lookup_cons, hi, ih h]
  · rw [if_neg hother]
    have hne : (other == key) = false := beq_false_of_ne hother
    clear h
    induction es with
    | nil => rw [insert, List.lookup_cons, hne]
    | cons i es ih =>
      unfold insert
      split
      · rw [List.lookup_cons, hne]
      · rw [List.lookup_cons, List.lookup_cons, ih]

theorem enter_of_lookup? (h : s.lookup? name = some e) : s.enter l name = (e, s, l) := by
  simp only [enter, h]

/-- A name that is not there gets the next place of the ledger. -/
theorem enter_of_not_lookup? (h : s.lookup? name = none) : s.enter l name =
    (⟨name, l.lines.size⟩, ⟨s.level, insert name ⟨name, l.lines.size⟩ s.entries⟩,
      ⟨l.lines.push #[]⟩) := by
  simp only [enter, h]
  rfl

end Scope

/-! ## The open scopes -/

namespace ScopeStack

variable {s : ScopeStack} {key name : String} {e f : EntryRef} {line : UInt32}

/-- The references in the open scopes, with their keys. -/
def live (s : ScopeStack) : List (String × EntryRef) := s.scopes.flatMap (·.entries)

theorem mem_live {i : String × EntryRef} :
    i ∈ s.live ↔ ∃ scope ∈ s.scopes, i ∈ scope.entries := List.mem_flatMap

/-- Every open reference has its name as its key and a place in the ledger, and no other has the
same place. -/
structure Sound (s : ScopeStack) : Prop where
  keyed : s.Keyed
  bounded : ∀ i ∈ s.live, i.2.index < s.ledger.lines.size
  distinct : ∀ i ∈ s.live, ∀ j ∈ s.live, i.2.index = j.2.index → i = j

theorem sound_initial : initial.Sound := ⟨keyed_initial, nofun, nofun⟩

/-- A longer ledger and fewer open references. -/
theorem Sound.of_subset {s' : ScopeStack} (h : s.Sound) (hkeyed : s'.Keyed)
    (hlive : ∀ i ∈ s'.live, i ∈ s.live)
    (hsize : s.ledger.lines.size ≤ s'.ledger.lines.size) : s'.Sound :=
  ⟨hkeyed, fun i hi => Nat.lt_of_lt_of_le (h.bounded i (hlive i hi)) hsize,
    fun i hi j hj => h.distinct i (hlive i hi) j (hlive j hj)⟩

theorem size_record (e : EntryRef) (line : UInt32) :
    (s.record e line).ledger.lines.size = s.ledger.lines.size := Array.size_modify

theorem Sound.record (h : s.Sound) (e : EntryRef) (line : UInt32) : (s.record e line).Sound :=
  h.of_subset (h.keyed.record e line) (fun _ h => h) (Nat.le_of_eq (size_record e line).symm)

theorem Sound.push (h : s.Sound) : s.push.Sound :=
  h.of_subset h.keyed.push (fun _ h => h) (Nat.le_refl _)

theorem mem_live_pop {i : String × EntryRef} (h : i ∈ s.pop.2.live) : i ∈ s.live := by
  unfold ScopeStack.pop at h
  split at h
  · exact h
  · next outer rest houter =>
    obtain ⟨scope, hscope, hi⟩ := mem_live.1 h
    exact mem_live.2 ⟨scope, List.mem_cons_of_mem _ (houter ▸ hscope), hi⟩

theorem ledger_pop (s : ScopeStack) : s.pop.2.ledger = s.ledger := by
  unfold ScopeStack.pop
  split <;> rfl

theorem Sound.pop (h : s.Sound) : s.pop.2.Sound :=
  h.of_subset h.keyed.pop (fun _ => mem_live_pop) (ledger_pop s ▸ Nat.le_refl _)

/-- The entry of a new name. -/
theorem enter_of_not_lookupLocal? (h : s.lookupLocal? name = none) : s.enter name =
    (⟨name, s.ledger.lines.size⟩, ⟨⟨s.ledger.lines.push #[]⟩,
      ⟨s.innermost.level, Scope.insert name ⟨name, s.ledger.lines.size⟩ s.innermost.entries⟩,
      s.outer⟩) := by
  rw [enter, Scope.enter_of_not_lookup? h]

theorem enter_of_lookupLocal? (h : s.lookupLocal? name = some e) : s.enter name = (e, s) := by
  rw [enter, Scope.enter_of_lookup? h]

theorem mem_live_enter {i : String × EntryRef} (h : s.lookupLocal? name = none) :
    i ∈ (s.enter name).2.live ↔ i = (name, ⟨name, s.ledger.lines.size⟩) ∨ i ∈ s.live := by
  rw [enter_of_not_lookupLocal? h]
  simp [live, scopes, Scope.mem_insert, or_assoc]

theorem Sound.enter (h : s.Sound) (name : String) : (s.enter name).2.Sound := by
  cases hlocal : s.lookupLocal? name with
  | some e =>
    rw [enter_of_lookupLocal? hlocal]
    exact h
  | none =>
    have hsize : (s.enter name).2.ledger.lines.size = s.ledger.lines.size + 1 := by
      rw [enter_of_not_lookupLocal? hlocal]
      exact Array.size_push _
    constructor
    · exact h.keyed.enter name
    · intro i hi
      rw [hsize]
      rcases (mem_live_enter hlocal).1 hi with rfl | hi
      · exact Nat.lt_succ_self _
      · exact Nat.lt_succ_of_lt (h.bounded i hi)
    · intro i hi j hj hij
      rcases (mem_live_enter hlocal).1 hi with rfl | hi
      · rcases (mem_live_enter hlocal).1 hj with rfl | hj
        · rfl
        · exact absurd hij.symm (Nat.ne_of_lt (h.bounded j hj))
      · rcases (mem_live_enter hlocal).1 hj with rfl | hj
        · exact absurd hij (Nat.ne_of_lt (h.bounded i hi))
        · exact h.distinct i hi j hj hij

theorem Sound.enterClosed (h : s.Sound) (closed : Scope) (name : String) :
    (s.enterClosed closed name).2.2.Sound := by
  cases hclosed : closed.lookup? name with
  | some e =>
    rw [ScopeStack.enterClosed, Scope.enter_of_lookup? hclosed]
    exact h
  | none =>
    rw [ScopeStack.enterClosed, Scope.enter_of_not_lookup? hclosed]
    refine h.of_subset h.keyed (fun _ h => h) ?_
    rw [Array.size_push]
    exact Nat.le_succ _

end ScopeStack

/-! ## Sessions -/

/-- What somebody holds who works with the scopes: the open scopes, the references that were
obtained so far, and the scopes that were closed and handed out. -/
structure Session where
  stack : ScopeStack
  held : List EntryRef
  closed : List Scope

namespace Session

open ScopeStack

/-- At the start there is the global scope. -/
def start : Session := ⟨.initial, [], []⟩

/-- Each thing that can be done with the open scopes, the references and the closed scopes. -/
inductive Step : Session → Session → Prop
  | enter {s held closed} (name : String) :
      Step ⟨s, held, closed⟩ ⟨(s.enter name).2, (s.enter name).1 :: held, closed⟩
  | lookup {s held closed name e} : s.lookup? name = some e →
      Step ⟨s, held, closed⟩ ⟨s, e :: held, closed⟩
  | lookupLocal {s held closed name e} : s.lookupLocal? name = some e →
      Step ⟨s, held, closed⟩ ⟨s, e :: held, closed⟩
  | record {s held closed e} (line : UInt32) : e ∈ held →
      Step ⟨s, held, closed⟩ ⟨s.record e line, held, closed⟩
  | push {s held closed} : Step ⟨s, held, closed⟩ ⟨s.push, held, closed⟩
  | pop {s held closed} : Step ⟨s, held, closed⟩ ⟨s.pop.2, held, s.pop.1.toList ++ closed⟩
  | enterClosed {s held before scope behind} (name : String) :
      Step ⟨s, held, before ++ scope :: behind⟩
        ⟨(s.enterClosed scope name).2.2, (s.enterClosed scope name).1 :: held,
          before ++ (s.enterClosed scope name).2.1 :: behind⟩
  | lookupClosed {s held closed scope name e} : scope ∈ closed → scope.lookup? name = some e →
      Step ⟨s, held, closed⟩ ⟨s, e :: held, closed⟩

theorem Step.sound {a b : Session} (h : Step a b) (ha : a.stack.Sound) : b.stack.Sound := by
  cases h with
  | enter name => exact ha.enter name
  | lookup | lookupLocal | lookupClosed => exact ha
  | record line => exact ha.record _ line
  | push => exact ha.push
  | pop => exact ha.pop
  | enterClosed name => exact ha.enterClosed _ name

end Session

/-- The open scopes of any session. -/
def ScopeStack.Reachable (s : ScopeStack) : Prop :=
  ∃ held closed, Relation.ReflTransGen Session.Step .start ⟨s, held, closed⟩

theorem Session.sound_of_steps {b : Session}
    (h : Relation.ReflTransGen Session.Step .start b) : b.stack.Sound := by
  induction h with
  | refl => exact ScopeStack.sound_initial
  | tail _ hstep ih => exact hstep.sound ih

/-- Whatever is done, the open scopes stay sound. -/
theorem ScopeStack.Reachable.sound {s : ScopeStack} (h : s.Reachable) : s.Sound := by
  obtain ⟨held, closed, h⟩ := h
  exact Session.sound_of_steps h

end PascalBlock
