import Mathlib.Data.String.Basic
import PascalBlock.Proofs.Scope.Uses

/-!
# Scopes stay in order

A scope is in order when its keys strictly increase, so none is there twice. A name is entered
before the first greater one, and only if it is new: uses of names keep the innermost scope in order
(`increasing_foldl`).
-/

namespace PascalBlock

namespace Scope

variable {key : String} {e : EntryRef} {es : List (String × EntryRef)}

/-- The keys of references strictly increase. -/
def Increasing (es : List (String × EntryRef)) : Prop := es.Pairwise (·.1 < ·.1)

theorem Increasing.insert (h : Increasing es) (hnew : es.lookup key = none) :
    Increasing (insert key e es) := by
  replace hnew : ∀ i ∈ es, i.1 ≠ key := fun i hi => by
    simpa using (bne_iff_ne.1 (List.lookup_eq_none_iff.1 hnew i hi)).symm
  induction es with
  | nil => exact List.pairwise_singleton _ _
  | cons i es ih =>
    obtain ⟨hi, hes⟩ := List.pairwise_cons.1 h
    rw [List.forall_mem_cons] at hnew
    unfold Scope.insert
    split
    case isTrue hlt =>
      refine List.pairwise_cons.2 ⟨List.forall_mem_cons.2 ⟨hlt, fun j hj => ?_⟩, h⟩
      exact hlt.trans (hi j hj)
    case isFalse hge =>
      refine List.pairwise_cons.2 ⟨fun j hj => ?_, ih hes hnew.2⟩
      rcases mem_insert.1 hj with rfl | hj
      · exact lt_of_le_of_ne (not_lt.1 hge) hnew.1
      · exact hi j hj

end Scope

namespace ScopeStack

variable {s : ScopeStack}

open Scope

theorem increasing_resolve (h : Increasing s.innermost.entries) (name : String) :
    Increasing (s.resolve name).2.innermost.entries := by
  cases hname : s.lookup? name with
  | some e =>
    rw [resolve_of_lookup? hname]
    exact h
  | none =>
    rw [resolve_of_not_lookup? hname]
    exact h.insert (lookupLocal?_eq_none hname)

/-- **Uses of names keep the innermost scope in order**. -/
theorem increasing_foldl (h : Increasing s.innermost.entries) (uses : List Token) :
    Increasing (uses.foldl use s).innermost.entries := by
  induction uses generalizing s with
  | nil => exact h
  | cons t uses ih => exact ih (increasing_resolve h t.name)

end ScopeStack

end PascalBlock
