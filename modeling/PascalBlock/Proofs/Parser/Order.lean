import PascalBlock.Proofs.Parser.Statement

/-!
# Diagnostics come in the order of the tokens

Nothing is flagged but on the token under the cursor, and the cursor never goes back. So what a
reading flags goes along the tokens that it takes and the one that it stops at (`FlaggedAlong`), also
where it is flagged late, like an `END` that is missing behind all that a block could read.
-/

namespace PascalBlock

/-! ## Lists along lists -/

/-- The elements of the second list are some of those of the first, in their order; one may come
more than once. -/
inductive Along {α : Type} : List α → List α → Prop
  | nil (xs : List α) : Along xs []
  | stay {x : α} {xs ys : List α} (h : Along (x :: xs) ys) : Along (x :: xs) (x :: ys)
  | move {x : α} {xs ys : List α} (h : Along xs ys) : Along (x :: xs) ys

namespace Along

variable {α β : Type} {xs ys zs ws : List α} {z : α}

theorem subset (h : Along xs ys) : ys ⊆ xs := by
  induction h with
  | nil => exact List.nil_subset _
  | stay _ ih => exact List.cons_subset.2 ⟨List.mem_cons_self, ih⟩
  | move _ ih => exact fun _ hy => List.mem_cons_of_mem _ (ih hy)

theorem behind (h : Along xs ys) : ∀ zs : List α, Along (zs ++ xs) ys
  | [] => h
  | _ :: zs => .move (h.behind zs)

theorem of_prefix (h : Along xs ys) : ∀ {zs : List α}, xs <+: zs → Along zs ys := by
  induction h with
  | nil => exact fun _ => .nil _
  | stay _ ih =>
    rintro _ ⟨more, rfl⟩
    exact .stay (ih ⟨more, rfl⟩)
  | move _ ih =>
    rintro _ ⟨more, rfl⟩
    exact .move (ih ⟨more, rfl⟩)

theorem of_sublist (h : ys.Sublist xs) : Along xs ys := by
  induction h with
  | slnil => exact .nil []
  | cons x _ ih => exact .move ih
  | cons_cons x _ ih => exact .stay (.move ih)

/-- The second list may still be on the element with which the first one goes on. -/
theorem append (h : Along (xs ++ [z]) ys) (h' : Along (z :: zs) ws) :
    Along (xs ++ z :: zs) (ys ++ ws) := by
  generalize hxs : xs ++ [z] = us at h
  induction h generalizing xs with
  | nil => exact h'.behind xs
  | stay _ ih =>
    have hrest := ih hxs
    cases xs <;> obtain ⟨rfl, -⟩ := List.cons.inj hxs <;> exact .stay hrest
  | move h ih =>
    cases xs with
    | nil =>
      obtain ⟨-, rfl⟩ := List.cons.inj hxs
      cases h
      exact h'
    | cons => exact .move (ih (List.cons.inj hxs).2)

/-- What is in order stays in order. -/
theorem pairwise {R : α → α → Prop} (h : Along xs ys) (hrefl : ∀ x, R x x) (hxs : xs.Pairwise R) :
    ys.Pairwise R := by
  induction h with
  | nil => exact List.Pairwise.nil
  | stay h ih =>
    refine List.pairwise_cons.2 ⟨fun y hy => ?_, ih hxs⟩
    rcases List.mem_cons.1 (h.subset hy) with rfl | hy
    · exact hrefl _
    · exact List.rel_of_pairwise_cons hxs hy
  | move _ ih => exact ih (List.pairwise_cons.1 hxs).2

/-- What goes along images are images of what goes along. -/
theorem exists_of_map {f : α → β} {us : List β} (h : Along (xs.map f) us) :
    ∃ ys, Along xs ys ∧ us = ys.map f := by
  generalize hxs : xs.map f = vs at h
  induction h generalizing xs with
  | nil => exact ⟨[], .nil xs, rfl⟩
  | stay _ ih =>
    obtain ⟨ys, hys, rfl⟩ := ih hxs
    obtain ⟨x, xs, rfl, rfl, -⟩ := List.map_eq_cons_iff.1 hxs
    exact ⟨x :: ys, .stay hys, rfl⟩
  | move _ ih =>
    obtain ⟨x, xs, rfl, -, hrest⟩ := List.map_eq_cons_iff.1 hxs
    obtain ⟨ys, hys, rfl⟩ := ih hrest
    exact ⟨ys, .move hys, rfl⟩

end Along

/-- All tokens from the current one on. -/
def Cursor.stream (c : Cursor) : List Token := c.ahead ++ [c.last]

namespace Parser

variable {p q r : Parser} {ts us : List Token} {ds es fs : List Diagnostic} {ns : List Node}

/-! ## Diagnostics along tokens -/

/-- What is taken next and the token behind it begin with the current one. -/
theorem Effect.exists_stream (h : Effect p ts ds q) : ∃ us, ts ++ [q.current] = p.current :: us := by
  cases ts with
  | nil =>
    have hcurrent : q.current = p.current := by
      simp only [current, Cursor.current, h.ahead, h.last, List.nil_append]
    exact ⟨[], by rw [hcurrent]; rfl⟩
  | cons t ts =>
    have hcurrent : p.current = t := by simp [current, Cursor.current, h.ahead]
    exact ⟨ts ++ [q.current], by rw [hcurrent]; rfl⟩

/-- These are the next tokens, up to the one at the end. -/
theorem Effect.prefix_stream (h : Effect p ts ds q) : ts ++ [q.current] <+: p.cursor.stream := by
  rw [Cursor.stream, h.ahead, ← h.last, List.append_assoc, List.prefix_append_right_inj, current,
    Cursor.current]
  cases q.cursor.ahead <;> simp

/-- The diagnostics were flagged on tokens that were taken and on the one that stopped the reading,
in the order of the tokens. -/
def FlaggedAlong (ts : List Token) (ds : List Diagnostic) (q : Parser) : Prop :=
  Along (ts ++ [q.current]) (ds.map (·.token))

namespace FlaggedAlong

theorem nil (ts : List Token) (q : Parser) : FlaggedAlong ts [] q := Along.nil _

theorem cons {t : Token} (h : FlaggedAlong ts ds q) : FlaggedAlong (t :: ts) ds q := Along.move h

/-- One diagnostic, on the first of the tokens. -/
theorem one {d : Diagnostic} {t : Token} (h : ts ++ [q.current] = t :: us) (hd : d.token = t) :
    FlaggedAlong ts [d] q := by
  rw [FlaggedAlong, h, List.map_singleton, hd]
  exact .stay (.nil _)

theorem trans (h : FlaggedAlong ts ds q) (he : Effect q us fs r) (h' : FlaggedAlong us es r) :
    FlaggedAlong (ts ++ us) (ds ++ es) r := by
  obtain ⟨vs, hvs⟩ := he.exists_stream
  rw [FlaggedAlong] at h'
  rw [FlaggedAlong, List.append_assoc, List.map_append, hvs]
  rw [hvs] at h'
  exact h.append h'

end FlaggedAlong

theorem Expects.flaggedAlong {kind : TokenKind} {cause : Cause} {component : Component}
    (h : Expects kind cause component p ts ds q) : FlaggedAlong ts ds q := by
  cases h with
  | found => exact .nil _ _
  | missing => exact .one rfl rfl

theorem flaggedAlong_unknownName (p q : Parser) : FlaggedAlong [p.current] p.unknownName q := by
  unfold unknownName
  split
  · exact .nil _ _
  · exact .one rfl rfl

theorem ReadsOperand.flaggedAlong {phrase : Phrase} (h : ReadsOperand phrase p ts ds ns q) :
    FlaggedAlong ts ds q := by
  induction h with
  | identifier => exact flaggedAlong_unknownName _ _
  | constant | stop => exact .nil _ _
  | tooDeep | unexpected => exact .one rfl rfl
  | negation _ _ _ ih | plus _ _ ih | minus _ _ ih => exact ih.cons
  | parentheses _ _ _ close ih =>
    exact ih.cons.trans ((Effect.exitNesting _).trans (close.effect (by decide))) close.flaggedAlong
  | unsigned _ _ _ ih | simple _ _ ih => exact ih
  | chain _ rest ih ih' => exact ih.trans rest.effect ih'
  | link _ _ rest ih ih' => exact ih.cons.trans rest.effect ih'
  | relation _ hk right ih ih' =>
    have hend := ne_end_of_inExpression (inExpression_of_relational hk)
    exact ih.trans (right.effect.cons hend) ih'.cons

theorem Separates.flaggedAlong (h : Separates p ts ds q) : FlaggedAlong ts ds q := by
  cases h with
  | semicolon | closing => exact .nil _ _
  | missing | stray => exact .one rfl rfl

theorem ReadsStatement.flaggedAlong {clause : Clause} (h : ReadsStatement clause p ts ds ns q) :
    FlaggedAlong ts ds q := by
  induction h with
  | assignment _ sign value => exact sign.flaggedAlong.cons.trans value.effect value.flaggedAlong
  | tooDeep => exact .one rfl rfl
  | @compound p _ r ts ds _ us es _ _ _ close ih =>
    have hr : FlaggedAlong (p.current :: ts ++ us) (ds ++ es) r :=
      ih.cons.trans (close.effect (by decide)) close.flaggedAlong
    exact hr
  | empty | finish => exact .nil _ _
  | round _ _ separator rest ih ih' =>
    exact (ih.trans separator.effect separator.flaggedAlong).trans rest.effect ih'

/-- **What a program flags goes along its tokens**. -/
theorem ReadsProgram.flaggedAlong (h : ReadsProgram p ts ds ns q) : FlaggedAlong ts ds q := by
  cases h with
  | nothing => exact .nil _ _
  | block _ root period =>
    exact root.flaggedAlong.trans (period.effect (by decide)) period.flaggedAlong
  | noBlock _ _ period =>
    have hflagged : FlaggedAlong [] [p.diagnostic (.unexpectedToken p.current.text) .program]
        (p.flagUnexpected .program) := .one rfl rfl
    exact hflagged.trans (period.effect (by decide)) period.flaggedAlong

end Parser

end PascalBlock
