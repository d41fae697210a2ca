/-!
# Identifiers and scopes

An identifier is entered once in a scope and then shared by all who name it: they hold the same
reference, and its lines are kept in a ledger that outlives the scopes. A scope keeps its references
under keys, in increasing order of these; a reference is entered under its own name (`Keyed`).
-/

namespace PascalBlock

/-- A shared identifier: its name, and its place in the ledger. -/
structure EntryRef where
  name : String
  index : Nat
deriving DecidableEq, Repr

/-- The lines recorded for every identifier ever entered, in the order of recording. -/
structure Ledger where
  lines : Array (Array UInt32)
deriving DecidableEq, Repr

namespace Ledger

def empty : Ledger := ⟨#[]⟩

/-- A new identifier, without lines. -/
def add (l : Ledger) (name : String) : EntryRef × Ledger :=
  (⟨name, l.lines.size⟩, ⟨l.lines.push #[]⟩)

/-- One more line for an identifier. -/
def record (l : Ledger) (e : EntryRef) (line : UInt32) : Ledger :=
  ⟨l.lines.modify e.index (·.push line)⟩

/-- The lines of an identifier. -/
def linesOf (l : Ledger) (e : EntryRef) : List UInt32 := (l.lines.getD e.index #[]).toList

end Ledger

/-! ## One scope -/

structure Scope where
  level : Nat
  /-- The references, each with the key it is found under. -/
  entries : List (String × EntryRef)
deriving DecidableEq, Repr

namespace Scope

def empty (level : Nat) : Scope := ⟨level, []⟩

/-- Puts a reference before the first one with a greater key. -/
def insert (key : String) (e : EntryRef) : List (String × EntryRef) → List (String × EntryRef)
  | [] => [(key, e)]
  | i :: rest => if key < i.1 then (key, e) :: i :: rest else i :: insert key e rest

def lookup? (s : Scope) (key : String) : Option EntryRef := s.entries.lookup key

/-- The reference of a name, entered now if the scope does not hold it. -/
def enter (s : Scope) (l : Ledger) (name : String) : EntryRef × Scope × Ledger :=
  match s.lookup? name with
  | some e => (e, s, l)
  | none =>
    let (e, l') := l.add name
    (e, { s with entries := insert name e s.entries }, l')

/-- Every reference has its name as its key. -/
def Keyed (s : Scope) : Prop := ∀ i ∈ s.entries, i.2.name = i.1

variable {s : Scope} {key name : String} {e : EntryRef} {i : String × EntryRef}
  {es : List (String × EntryRef)}

theorem mem_insert : i ∈ insert key e es ↔ i = (key, e) ∨ i ∈ es := by
  induction es with
  | nil => simp [insert]
  | cons j es ih =>
    unfold insert
    split
    · rw [List.mem_cons]
    · rw [List.mem_cons, ih, List.mem_cons, or_left_comm]

theorem mem_of_lookup? (h : s.lookup? key = some e) : (key, e) ∈ s.entries := by
  obtain ⟨before, behind, hentries, -⟩ := List.lookup_eq_some_iff.1 h
  simp [hentries]

theorem keyed_empty (level : Nat) : (empty level).Keyed := List.forall_mem_nil _

namespace Keyed

/-- What is found goes by the name that was looked for. -/
theorem name_eq (hs : s.Keyed) (h : s.lookup? name = some e) : e.name = name :=
  hs _ (mem_of_lookup? h)

theorem enter (hs : s.Keyed) (l : Ledger) (name : String) : (s.enter l name).2.1.Keyed := by
  unfold Scope.enter
  split
  · exact hs
  · intro i hi
    rcases mem_insert.1 hi with rfl | hi
    · rfl
    · exact hs i hi

theorem enter_name (hs : s.Keyed) (l : Ledger) (name : String) :
    (s.enter l name).1.name = name := by
  unfold Scope.enter
  split
  · next he => exact hs.name_eq he
  · rfl

end Keyed

end Scope

/-! ## The open scopes -/

/-- The open scopes, of which there is always one; the outermost is the global one. -/
structure ScopeStack where
  ledger : Ledger
  innermost : Scope
  outer : List Scope
deriving DecidableEq, Repr

namespace ScopeStack

/-- The global scope alone. -/
def initial : ScopeStack := ⟨.empty, .empty 0, []⟩

/-- How many scopes enclose the innermost one. -/
def level (s : ScopeStack) : Nat := s.outer.length

/-- All open scopes, from the innermost outwards. -/
def scopes (s : ScopeStack) : List Scope := s.innermost :: s.outer

def push (s : ScopeStack) : ScopeStack :=
  { s with innermost := .empty (s.level + 1), outer := s.scopes }

/-- Closes the innermost scope and hands it out; the global scope stays. -/
def pop (s : ScopeStack) : Option Scope × ScopeStack :=
  match s.outer with
  | [] => (none, s)
  | next :: rest => (some s.innermost, { s with innermost := next, outer := rest })

/-- Enters a name into the innermost scope. -/
def enter (s : ScopeStack) (name : String) : EntryRef × ScopeStack :=
  let (e, innermost, ledger) := s.innermost.enter s.ledger name
  (e, { s with innermost, ledger })

/-- Enters a name into a scope that is closed. -/
def enterClosed (s : ScopeStack) (closed : Scope) (name : String) : EntryRef × Scope × ScopeStack :=
  let (e, closed', ledger) := closed.enter s.ledger name
  (e, closed', { s with ledger })

def lookupLocal? (s : ScopeStack) (name : String) : Option EntryRef := s.innermost.lookup? name

/-- The reference that a name has in the nearest scope that holds it. -/
def lookup? (s : ScopeStack) (name : String) : Option EntryRef :=
  s.scopes.findSome? (·.lookup? name)

def record (s : ScopeStack) (e : EntryRef) (line : UInt32) : ScopeStack :=
  { s with ledger := s.ledger.record e line }

def linesOf (s : ScopeStack) (e : EntryRef) : List UInt32 := s.ledger.linesOf e

/-- In every open scope every reference has its name as its key. -/
def Keyed (s : ScopeStack) : Prop := ∀ scope ∈ s.scopes, scope.Keyed

theorem keyed_initial : initial.Keyed := List.forall_mem_singleton.2 (Scope.keyed_empty 0)

namespace Keyed

variable {s : ScopeStack} {name : String} {e : EntryRef}

theorem name_eq (hs : s.Keyed) (h : s.lookup? name = some e) : e.name = name := by
  obtain ⟨scope, hscope, he⟩ := List.exists_of_findSome?_eq_some h
  exact (hs scope hscope).name_eq he

theorem innermost (hs : s.Keyed) : s.innermost.Keyed := hs _ List.mem_cons_self

theorem enter (hs : s.Keyed) (name : String) : (s.enter name).2.Keyed :=
  List.forall_mem_cons.2 ⟨hs.innermost.enter s.ledger name, (List.forall_mem_cons.1 hs).2⟩

theorem enter_name (hs : s.Keyed) (name : String) : (s.enter name).1.name = name :=
  hs.innermost.enter_name s.ledger name

theorem push (hs : s.Keyed) : s.push.Keyed := List.forall_mem_cons.2 ⟨Scope.keyed_empty _, hs⟩

theorem pop (hs : s.Keyed) : s.pop.2.Keyed := by
  unfold ScopeStack.pop
  split
  · exact hs
  · next houter =>
    exact fun scope hscope => hs scope (List.mem_cons_of_mem _ (houter ▸ hscope))

theorem record (hs : s.Keyed) (e : EntryRef) (line : UInt32) : (s.record e line).Keyed := hs

end Keyed

end ScopeStack

end PascalBlock
