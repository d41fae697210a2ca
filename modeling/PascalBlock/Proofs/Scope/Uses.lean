import PascalBlock.Proofs.Scope.Session
import PascalBlock.Token.Basic

/-!
# Uses of names

A use of a name resolves it, enters it where no open scope holds it, and records the line. What a
row of uses has done is said of the two ends by `Records`: who is visible and as which reference,
and the lines of every reference. A single use in a sound state does so (`records_use`), and one row
behind another does (`Records.trans`).
-/

namespace PascalBlock

namespace Ledger

variable {l : Ledger} {e f : EntryRef} {line : UInt32}

theorem linesOf_record (h : e.index < l.lines.size) : (l.record e line).linesOf f =
    l.linesOf f ++ if f.index = e.index then [line] else [] := by
  unfold linesOf record
  rw [Array.getD_eq_getD_getElem?, Array.getD_eq_getD_getElem?, Array.getElem?_modify]
  by_cases hef : f.index = e.index
  · rw [if_pos hef.symm, if_pos hef, hef, Array.getElem?_eq_getElem h]
    simp
  · rw [if_neg (Ne.symm hef), if_neg hef, List.append_nil]

/-- The place of a new name has no lines yet. -/
theorem linesOf_push (l : Ledger) (f : EntryRef) : (⟨l.lines.push #[]⟩ : Ledger).linesOf f =
    l.linesOf f := by
  unfold linesOf
  rw [Array.getD_eq_getD_getElem?, Array.getD_eq_getD_getElem?, Array.getElem?_push]
  split
  · next h => rw [h, Array.getElem?_eq_none (Nat.le_refl _)]; rfl
  · rfl

theorem linesOf_of_le (h : l.lines.size ≤ e.index) : l.linesOf e = [] := by
  unfold linesOf
  rw [Array.getD_eq_getD_getElem?, Array.getElem?_eq_none h]
  rfl

end Ledger

namespace ScopeStack

variable {s s' s'' : ScopeStack} {name : String} {e f : EntryRef} {t : Token}
  {uses more : List Token}

/-- The reference of a name; a name that no open scope holds is entered into the innermost one. -/
def resolve (s : ScopeStack) (name : String) : EntryRef × ScopeStack :=
  match s.lookup? name with
  | some e => (e, s)
  | none => s.enter name

/-- The token is used as a name. -/
def use (s : ScopeStack) (t : Token) : ScopeStack :=
  let (e, s') := s.resolve t.name
  s'.record e t.line

theorem lookup?_eq (s : ScopeStack) (name : String) :
    s.lookup? name = (s.lookupLocal? name).or (s.outer.findSome? (·.lookup? name)) := by
  rw [lookup?, scopes, List.findSome?_cons, lookupLocal?]
  cases s.innermost.lookup? name <;> rfl

theorem mem_live_of_lookup? (h : s.lookup? name = some e) : (name, e) ∈ s.live := by
  obtain ⟨scope, hscope, hs⟩ := List.exists_of_findSome?_eq_some h
  exact mem_live.2 ⟨scope, hscope, Scope.mem_of_lookup? hs⟩

/-- What uses of names have done to the open scopes. -/
structure Records (before : ScopeStack) (uses : List Token) (after : ScopeStack) : Prop where
  /-- A visible name stays the same reference. -/
  kept : ∀ name e, before.lookup? name = some e → after.lookup? name = some e
  visible : ∀ name, (after.lookup? name).isSome ↔
    (before.lookup? name).isSome ∨ ∃ t ∈ uses, t.name = name
  /-- A name that becomes visible gets a new place, in the innermost scope. -/
  new : ∀ name e, before.lookup? name = none → after.lookup? name = some e →
    (name, e) ∈ after.innermost.entries ∧ before.ledger.lines.size ≤ e.index
  lines : ∀ name e, after.lookup? name = some e →
    after.linesOf e = before.linesOf e ++ (uses.filter (·.name == name)).map (·.line)
  /-- No place in the ledger changes but those of the names that are used. -/
  others : ∀ e, (∀ t ∈ uses, ∀ f, after.lookup? t.name = some f → f.index ≠ e.index) →
    after.linesOf e = before.linesOf e
  grows : before.ledger.lines.size ≤ after.ledger.lines.size
  /-- No place is added but for a name that becomes visible. -/
  places : ∀ i, before.ledger.lines.size ≤ i → i < after.ledger.lines.size →
    ∃ e, after.lookup? e.name = some e ∧ before.lookup? e.name = none ∧ e.index = i
  outer : after.outer = before.outer
  level : after.innermost.level = before.innermost.level
  entries : before.innermost.entries.Sublist after.innermost.entries
  /-- No other reference comes into the innermost scope, and none but under its name. -/
  entered : ∀ i ∈ after.innermost.entries, i ∈ before.innermost.entries ∨
    i.2.name = i.1 ∧ before.lookup? i.1 = none ∧ after.lookup? i.1 = some i.2

namespace Records

theorem refl (s : ScopeStack) : Records s [] s where
  kept _ _ h := h
  visible name := by simp
  new name e h h' := by rw [h] at h'; cases h'
  lines name e _ := by simp
  others e _ := rfl
  grows := Nat.le_refl _
  places i h h' := absurd h (Nat.not_le.2 h')
  outer := rfl
  level := rfl
  entries := List.Sublist.refl _
  entered i hi := .inl hi

/-- A name that is not visible later was not visible before. -/
theorem lookup?_eq_none (h : Records s uses s') (hname : s'.lookup? name = none) :
    s.lookup? name = none := by
  rw [Option.eq_none_iff_forall_not_mem]
  intro e he
  rw [h.kept name e he] at hname
  cases hname

/-- A name that is not visible later was not used. -/
theorem not_used (h : Records s uses s') (hname : s'.lookup? name = none) :
    ∀ t ∈ uses, t.name ≠ name := by
  intro t ht heq
  have hsome := (h.visible name).2 (.inr ⟨t, ht, heq⟩)
  rw [hname] at hsome
  cases hsome

theorem trans (h : Records s uses s') (h' : Records s' more s'') :
    Records s (uses ++ more) s'' where
  kept name e he := h'.kept name e (h.kept name e he)
  visible name := by
    rw [h'.visible, h.visible, or_assoc]
    simp only [List.mem_append, or_and_right, exists_or]
  new name e hs hs'' := by
    cases hs' : s'.lookup? name with
    | none =>
      obtain ⟨hmem, hindex⟩ := h'.new name e hs' hs''
      exact ⟨hmem, Nat.le_trans h.grows hindex⟩
    | some f =>
      obtain rfl := Option.some.inj (hs''.symm.trans (h'.kept name f hs'))
      obtain ⟨hmem, hindex⟩ := h.new name e hs hs'
      exact ⟨h'.entries.subset hmem, hindex⟩
  lines name e he := by
    rw [h'.lines name e he, List.filter_append, List.map_append, ← List.append_assoc]
    cases hs' : s'.lookup? name with
    | some f =>
      obtain rfl := Option.some.inj (he.symm.trans (h'.kept name f hs'))
      rw [h.lines name e hs']
    | none =>
      obtain ⟨-, hindex⟩ := h'.new name e hs' he
      have hunused : uses.filter (·.name == name) = [] :=
        List.filter_eq_nil_iff.2 fun t ht => by simpa using h.not_used hs' t ht
      rw [hunused, linesOf, linesOf, Ledger.linesOf_of_le hindex,
        Ledger.linesOf_of_le (Nat.le_trans h.grows hindex)]
      rfl
  others e he := by
    rw [h'.others e fun t ht => he t (List.mem_append_right _ ht)]
    refine h.others e fun t ht f hf => ?_
    exact he t (List.mem_append_left _ ht) f (h'.kept _ _ hf)
  grows := Nat.le_trans h.grows h'.grows
  places i hi hi' := by
    rcases Nat.lt_or_ge i s'.ledger.lines.size with hlt | hge
    · obtain ⟨e, he, hnone, rfl⟩ := h.places i hi hlt
      exact ⟨e, h'.kept _ _ he, hnone, rfl⟩
    · obtain ⟨e, he, hnone, rfl⟩ := h'.places i hge hi'
      exact ⟨e, he, h.lookup?_eq_none hnone, rfl⟩
  outer := h'.outer.trans h.outer
  level := h'.level.trans h.level
  entries := h.entries.trans h'.entries
  entered i hi := by
    rcases h'.entered i hi with hi | ⟨hname, hnone, he⟩
    · rcases h.entered i hi with hi | ⟨hname, hnone, he⟩
      · exact .inl hi
      · exact .inr ⟨hname, hnone, h'.kept _ _ he⟩
    · exact .inr ⟨hname, h.lookup?_eq_none hnone, he⟩

end Records

/-! ## One use -/

theorem Sound.resolve (h : s.Sound) (name : String) : (s.resolve name).2.Sound := by
  unfold ScopeStack.resolve
  split
  · exact h
  · exact h.enter name

theorem Sound.use (h : s.Sound) (t : Token) : (s.use t).Sound := (h.resolve t.name).record _ _

theorem lookupLocal?_eq_none (h : s.lookup? name = none) : s.lookupLocal? name = none := by
  rw [lookup?_eq, Option.or_eq_none_iff] at h
  exact h.1

theorem resolve_of_lookup? (h : s.lookup? name = some e) : s.resolve name = (e, s) := by
  simp only [resolve, h]

/-- A new name gets the next place of the ledger, in the innermost scope. -/
theorem resolve_of_not_lookup? (h : s.lookup? name = none) : s.resolve name =
    (⟨name, s.ledger.lines.size⟩, ⟨⟨s.ledger.lines.push #[]⟩,
      ⟨s.innermost.level, Scope.insert name ⟨name, s.ledger.lines.size⟩ s.innermost.entries⟩,
      s.outer⟩) := by
  rw [← enter_of_not_lookupLocal? (lookupLocal?_eq_none h)]
  simp only [resolve, h]

theorem Keyed.resolve_name (hs : s.Keyed) (name : String) : (s.resolve name).1.name = name := by
  cases h : s.lookup? name with
  | some e =>
    rw [resolve_of_lookup? h]
    exact hs.name_eq h
  | none => rw [resolve_of_not_lookup? h]

section
variable (s) (name)

theorem resolve_outer : (s.resolve name).2.outer = s.outer := by
  cases h : s.lookup? name with
  | some e => rw [resolve_of_lookup? h]
  | none => rw [resolve_of_not_lookup? h]

theorem resolve_level : (s.resolve name).2.innermost.level = s.innermost.level := by
  cases h : s.lookup? name with
  | some e => rw [resolve_of_lookup? h]
  | none => rw [resolve_of_not_lookup? h]

theorem resolve_entries :
    s.innermost.entries.Sublist (s.resolve name).2.innermost.entries := by
  cases h : s.lookup? name with
  | some e => simp [resolve_of_lookup? h]
  | none => rw [resolve_of_not_lookup? h]; exact Scope.sublist_insert ..

theorem size_le_resolve : s.ledger.lines.size ≤ (s.resolve name).2.ledger.lines.size := by
  cases h : s.lookup? name with
  | some e => simp [resolve_of_lookup? h]
  | none => rw [resolve_of_not_lookup? h, Array.size_push]; exact Nat.le_succ _

end

/-- No other place is added. -/
theorem size_resolve_le {i : Nat} (hi : s.ledger.lines.size ≤ i)
    (hi' : i < (s.resolve name).2.ledger.lines.size) :
    s.lookup? name = none ∧ (s.resolve name).1.index = i := by
  cases h : s.lookup? name with
  | some e =>
    rw [resolve_of_lookup? h] at hi'
    exact absurd hi (Nat.not_le.2 hi')
  | none =>
    rw [resolve_of_not_lookup? h, Array.size_push] at hi'
    rw [resolve_of_not_lookup? h]
    exact ⟨rfl, Nat.le_antisymm hi (Nat.le_of_lt_succ hi')⟩

/-- No other reference is entered. -/
theorem mem_entries_resolve {i : String × EntryRef}
    (hi : i ∈ (s.resolve name).2.innermost.entries) :
    i ∈ s.innermost.entries ∨ s.lookup? name = none ∧ i = (name, (s.resolve name).1) := by
  cases h : s.lookup? name with
  | some f =>
    rw [resolve_of_lookup? h] at hi
    exact .inl hi
  | none =>
    rw [resolve_of_not_lookup? h] at hi
    rw [resolve_of_not_lookup? h]
    rcases Scope.mem_insert.1 hi with rfl | hi
    · exact .inr ⟨rfl, rfl⟩
    · exact .inl hi

/-- Behind a use the name is visible, and all others are as before. -/
theorem lookup?_use (s : ScopeStack) (t : Token) (name : String) : (s.use t).lookup? name =
    if name = t.name then some (s.resolve t.name).1 else s.lookup? name := by
  change (s.resolve t.name).2.lookup? name = _
  cases hname : s.lookup? t.name with
  | some e =>
    rw [resolve_of_lookup? hname]
    split
    · next heq => rw [heq, hname]
    · rfl
  | none =>
    have hlocal : s.innermost.entries.lookup t.name = none := lookupLocal?_eq_none hname
    rw [resolve_of_not_lookup? hname, lookup?_eq, lookupLocal?, Scope.lookup?,
      Scope.lookup_insert hlocal]
    split
    · rfl
    · exact (lookup?_eq s name).symm

/-- A visible name stays the same reference. -/
theorem lookup?_use_of_some (h : s.lookup? name = some e) (t : Token) :
    (s.use t).lookup? name = some e := by
  rw [lookup?_use]
  split
  · next heq =>
    rw [heq] at h
    rw [resolve_of_lookup? h]
  · exact h

theorem lookup?_foldl_of_some (h : s.lookup? name = some e) (uses : List Token) :
    (uses.foldl use s).lookup? name = some e := by
  induction uses generalizing s with
  | nil => exact h
  | cons t uses ih => exact ih (lookup?_use_of_some h t)

/-- A use adds its line to the reference of its name, and to no other place. -/
theorem linesOf_use (h : s.Sound) (t : Token) (f : EntryRef) : (s.use t).linesOf f =
    s.linesOf f ++ if f.index = (s.resolve t.name).1.index then [t.line] else [] := by
  change ((s.resolve t.name).2.ledger.record (s.resolve t.name).1 t.line).linesOf f = _
  cases hname : s.lookup? t.name with
  | some e =>
    rw [resolve_of_lookup? hname]
    exact Ledger.linesOf_record (h.bounded _ (mem_live_of_lookup? hname))
  | none =>
    rw [resolve_of_not_lookup? hname, Ledger.linesOf_record (by simp), Ledger.linesOf_push]
    rfl

/-- Different names have different places. -/
theorem Sound.index_ne (h : s.Sound) {a b : String} (ha : s.lookup? a = some e)
    (hb : s.lookup? b = some f) (hab : a ≠ b) : e.index ≠ f.index := by
  intro heq
  have hsame := h.distinct _ (mem_live_of_lookup? ha) _ (mem_live_of_lookup? hb) heq
  exact hab (congrArg Prod.fst hsame)

/-- **A use records its token**: it is resolved to a reference of its name, and only that reference
is changed. -/
theorem records_use (h : s.Sound) (t : Token) : Records s [t] (s.use t) := by
  have hlookup := lookup?_use s t
  have hlines := linesOf_use h t
  have hself : (s.use t).lookup? t.name = some (s.resolve t.name).1 := by rw [hlookup, if_pos rfl]
  have hsize : (s.use t).ledger.lines.size = (s.resolve t.name).2.ledger.lines.size :=
    size_record _ _
  constructor
  case kept => exact fun name e he => lookup?_use_of_some he t
  case visible =>
    intro name
    rw [hlookup]
    split
    · next heq => simp [heq]
    · next hne => simp [Ne.symm hne]
  case lines =>
    intro name e he
    rw [hlines]
    by_cases heq : name = t.name
    · subst heq
      obtain rfl := Option.some.inj (hself.symm.trans he)
      simp
    · rw [if_neg ((h.use t).index_ne he hself heq)]
      simp [Ne.symm heq]
  case others =>
    intro e he
    rw [hlines, if_neg (he t List.mem_cons_self _ hself).symm, List.append_nil]
  case new =>
    intro name e hnone he
    rw [hlookup] at he
    split at he
    · next heq =>
      subst heq
      rw [resolve_of_not_lookup? hnone] at he
      obtain rfl := Option.some.inj he
      refine ⟨?_, Nat.le_refl _⟩
      change _ ∈ (s.resolve t.name).2.innermost.entries
      rw [resolve_of_not_lookup? hnone]
      exact Scope.mem_insert.2 (.inl rfl)
    · rw [hnone] at he
      cases he
  case grows => exact hsize ▸ size_le_resolve s t.name
  case places =>
    intro i hi hi'
    obtain ⟨hnone, hindex⟩ := size_resolve_le hi (hsize ▸ hi')
    have hname := h.keyed.resolve_name t.name
    exact ⟨_, hname.symm ▸ hself, hname.symm ▸ hnone, hindex⟩
  case outer => exact resolve_outer s t.name
  case level => exact resolve_level s t.name
  case entries => exact resolve_entries s t.name
  case entered =>
    intro i hi
    rcases mem_entries_resolve hi with hi | ⟨hnone, rfl⟩
    · exact .inl hi
    · exact .inr ⟨h.keyed.resolve_name t.name, hnone, hself⟩

/-- **A row of uses records them**. -/
theorem records_foldl (h : s.Sound) (uses : List Token) : Records s uses (uses.foldl use s) := by
  induction uses generalizing s with
  | nil => exact .refl s
  | cons t uses ih => exact (records_use h t).trans (ih (h.use t))

/-! ## Which lines were recorded does not count -/

/-- Scopes that hold the same references. -/
structure SameReferences (s s' : ScopeStack) : Prop where
  innermost : s.innermost = s'.innermost
  outer : s.outer = s'.outer
  places : s.ledger.lines.size = s'.ledger.lines.size

namespace SameReferences

theorem refl (s : ScopeStack) : SameReferences s s := ⟨rfl, rfl, rfl⟩

theorem lookup? (h : SameReferences s s') (name : String) : s.lookup? name = s'.lookup? name := by
  rw [ScopeStack.lookup?, ScopeStack.lookup?, scopes, scopes, h.innermost, h.outer]

theorem resolve (h : SameReferences s s') (name : String) :
    SameReferences (s.resolve name).2 (s'.resolve name).2 := by
  have hlookup := h.lookup? name
  cases hname : s.lookup? name with
  | some e =>
    rw [resolve_of_lookup? hname, resolve_of_lookup? (hlookup ▸ hname)]
    exact h
  | none =>
    rw [resolve_of_not_lookup? hname, resolve_of_not_lookup? (hlookup ▸ hname), h.innermost,
      h.places]
    exact ⟨rfl, h.outer, by rw [Array.size_push, Array.size_push, h.places]⟩

theorem record (h : SameReferences s s') (e f : EntryRef) (line line' : UInt32) :
    SameReferences (s.record e line) (s'.record f line') :=
  ⟨h.innermost, h.outer, by rw [size_record, size_record, h.places]⟩

theorem use {t' : Token} (h : SameReferences s s') (ht : t.name = t'.name) :
    SameReferences (s.use t) (s'.use t') := by
  change SameReferences ((s.resolve t.name).2.record _ _) ((s'.resolve t'.name).2.record _ _)
  rw [← ht]
  exact (h.resolve t.name).record _ _ _ _

/-- **Uses of the same names lead to the same references**. -/
theorem foldl (h : SameReferences s s') (hnames : uses.map Token.name = more.map Token.name) :
    SameReferences (uses.foldl ScopeStack.use s) (more.foldl ScopeStack.use s') := by
  induction uses generalizing s s' more with
  | nil =>
    obtain rfl : more = [] := List.map_eq_nil_iff.1 hnames.symm
    exact h
  | cons t uses ih =>
    cases more with
    | nil => cases hnames
    | cons t' more =>
      rw [List.map_cons, List.map_cons, List.cons.injEq] at hnames
      rw [List.foldl_cons, List.foldl_cons]
      exact ih (h.use hnames.1) hnames.2

end SameReferences

end ScopeStack

end PascalBlock
