import PascalBlock.Node.Dump
import PascalBlock.Proofs.Node.Shape
import PascalBlock.Proofs.Text.Line

/-!
# Tags

A tree has a tag that opens and one that closes for every node with children, and one by itself for
every other node. They are nested (`nested_tagsAt`), their sequence determines the tree
(`eq_of_tagsAt`), and they are the lines of its dump, so long as what is shown of a node does not go
over the end of a line (`lines_dumpAt`).
-/

namespace PascalBlock

open Text

namespace Node

/-! ## Tags -/

/-- A tag that opens, one that closes, or one by itself. -/
inductive Tag where
  | opening (kind : NodeKind) (attributes : Attributes)
  | single (kind : NodeKind) (attributes : Attributes)
  | closing (kind : NodeKind)
deriving DecidableEq, Repr

namespace Tag

def text : Tag → List Char
  | opening kind a => '<' :: ((tagText kind a).toList ++ ['>'])
  | single kind a => '<' :: ((tagText kind a).toList ++ [' ', '/', '>'])
  | closing kind => '<' :: '/' :: (kind.name.toList ++ ['>'])

/-- A tag on a line of its own, behind four blanks for every level. -/
def line : Nat × Tag → List Char
  | (depth, tag) => List.replicate (4 * depth) ' ' ++ tag.text ++ ['\n']

end Tag

mutual

/-- The tags of a tree that stands at a depth, each with its depth. -/
def tagsAt (depth : Nat) : Node → List (Nat × Tag)
  | mk kind a [] => [(depth, .single kind a)]
  | mk kind a (child :: rest) =>
    (depth, .opening kind a) ::
      (tagsAt (depth + 1) child ++ tagsAll (depth + 1) rest ++ [(depth, .closing kind)])

def tagsAll (depth : Nat) : List Node → List (Nat × Tag)
  | [] => []
  | n :: ns => tagsAt depth n ++ tagsAll depth ns

end

/-- Every tag stands as deep as there are open ones, and one that closes is for the last open one.
The kinds of the open tags are given from the innermost outwards. -/
def Nested : List NodeKind → List (Nat × Tag) → Prop
  | outer, [] => outer = []
  | outer, (depth, .opening kind _) :: rest => depth = outer.length ∧ Nested (kind :: outer) rest
  | outer, (depth, .single _ _) :: rest => depth = outer.length ∧ Nested outer rest
  | [], (_, .closing _) :: _ => False
  | last :: outer, (depth, .closing kind) :: rest =>
    kind = last ∧ depth = outer.length ∧ Nested outer rest

variable {kind : NodeKind} {a : Attributes} {depth : Nat} {n m : Node} {ns : List Node}

theorem tagsAt_inner (hns : ns ≠ []) : tagsAt depth (mk kind a ns) =
    (depth, .opening kind a) :: (tagsAll (depth + 1) ns ++ [(depth, .closing kind)]) := by
  cases ns with
  | nil => exact absurd rfl hns
  | cons n ns => rw [tagsAt, tagsAll]

/-! ## Nesting -/

mutual

/-- The tags of a tree leave as many open as there were. -/
theorem nested_tagsAt : ∀ (n : Node) (outer : List NodeKind) (r : List (Nat × Tag)),
    Nested outer (tagsAt outer.length n ++ r) ↔ Nested outer r
  | mk kind a [], outer, r => by simp [tagsAt, Nested]
  | mk kind a (child :: rest), outer, r => by
    have hchildren := nested_tagsAll (child :: rest) (kind :: outer)
      ((outer.length, .closing kind) :: r)
    rw [tagsAt_inner (List.cons_ne_nil _ _), List.cons_append, Nested, List.append_assoc,
      List.singleton_append, ← List.length_cons, hchildren]
    simp [Nested]

theorem nested_tagsAll : ∀ (ns : List Node) (outer : List NodeKind) (r : List (Nat × Tag)),
    Nested outer (tagsAll outer.length ns ++ r) ↔ Nested outer r
  | [], outer, r => by simp [tagsAll]
  | n :: ns, outer, r => by
    rw [tagsAll, List.append_assoc, nested_tagsAt n, nested_tagsAll ns]

end

mutual

/-- There is a tag for every node, and another one for a node with children. -/
theorem length_tagsAt : ∀ (n : Node) (depth : Nat), (tagsAt depth n).length =
    n.preorder.length + n.preorder.countP fun m => !m.children.isEmpty
  | mk kind a [], depth => by simp [tagsAt]
  | mk kind a (child :: rest), depth => by
    rw [tagsAt_inner (List.cons_ne_nil _ _), List.length_cons, List.length_append,
      length_tagsAll (child :: rest), preorder_mk]
    simp only [List.length_cons, List.length_nil, List.countP_cons, children_mk,
      List.isEmpty_cons, Bool.not_false, if_true]
    omega

theorem length_tagsAll : ∀ (ns : List Node) (depth : Nat), (tagsAll depth ns).length =
    (preorderAll ns).length + (preorderAll ns).countP fun m => !m.children.isEmpty
  | [], depth => by simp [tagsAll]
  | n :: ns, depth => by
    rw [tagsAll, List.length_append, length_tagsAt n, length_tagsAll ns, preorderAll_cons,
      List.length_append, List.countP_append]
    omega

end

/-! ## Trees -/

/-- The first tag of a tree stands where the tree stands. -/
theorem exists_tagsAt (n : Node) (depth : Nat) :
    ∃ tag rest, tagsAt depth n = (depth, tag) :: rest := by
  obtain ⟨kind, a, ns⟩ := n
  cases ns with
  | nil => exact ⟨_, _, by rw [tagsAt]⟩
  | cons n ns => exact ⟨_, _, by rw [tagsAt]⟩

mutual

/-- **The front of a sequence of tags is of one tree at most**. -/
theorem tagsAt_append_inj : ∀ (n m : Node) (depth : Nat) {r s : List (Nat × Tag)},
    tagsAt depth n ++ r = tagsAt depth m ++ s → n = m ∧ r = s
  | mk kind a [], mk kind' b [], depth, r, s, h => by
    simp only [tagsAt, List.singleton_append, List.cons.injEq, Prod.mk.injEq, Tag.single.injEq,
      true_and] at h
    exact ⟨by rw [h.1.1, h.1.2], h.2⟩
  | mk kind a [], mk kind' b (m :: ms), depth, r, s, h => by simp [tagsAt] at h
  | mk kind a (n :: ns), mk kind' b [], depth, r, s, h => by simp [tagsAt] at h
  | mk kind a (n :: ns), mk kind' b (m :: ms), depth, r, s, h => by
    rw [tagsAt_inner (List.cons_ne_nil n ns), tagsAt_inner (List.cons_ne_nil m ms)] at h
    simp only [List.cons_append, List.append_assoc, List.nil_append, List.cons.injEq,
      Prod.mk.injEq, Tag.opening.injEq, true_and] at h
    obtain ⟨⟨rfl, rfl⟩, h⟩ := h
    obtain ⟨hchildren, hrest⟩ := tagsAll_append_inj (n :: ns) (m :: ms) depth kind h
    exact ⟨by rw [hchildren], hrest⟩

theorem tagsAll_append_inj : ∀ (ns ms : List Node) (depth : Nat) (kind : NodeKind)
    {r s : List (Nat × Tag)}, tagsAll (depth + 1) ns ++ (depth, .closing kind) :: r =
      tagsAll (depth + 1) ms ++ (depth, .closing kind) :: s → ns = ms ∧ r = s
  | [], [], depth, kind, r, s, h => ⟨rfl, (List.cons.inj h).2⟩
  | [], m :: ms, depth, kind, r, s, h => by
    obtain ⟨tag, rest, hm⟩ := exists_tagsAt m (depth + 1)
    simp [tagsAll, hm] at h
  | n :: ns, [], depth, kind, r, s, h => by
    obtain ⟨tag, rest, hn⟩ := exists_tagsAt n (depth + 1)
    simp [tagsAll, hn] at h
  | n :: ns, m :: ms, depth, kind, r, s, h => by
    rw [tagsAll, tagsAll, List.append_assoc, List.append_assoc] at h
    obtain ⟨hfirst, hmore⟩ := tagsAt_append_inj n m (depth + 1) h
    obtain ⟨hothers, hrest⟩ := tagsAll_append_inj ns ms depth kind hmore
    exact ⟨by rw [hfirst, hothers], hrest⟩

end

theorem eq_of_tagsAt (depth : Nat) (h : tagsAt depth n = tagsAt depth m) : n = m :=
  (tagsAt_append_inj n m depth (congrArg (· ++ []) h)).1

/-! ## The lines of a dump -/

theorem toList_dumpAt_leaf (depth : Nat) (kind : NodeKind) (a : Attributes) :
    (dumpAt depth (mk kind a [])).toList = Tag.line (depth, .single kind a) := by
  simp [dumpAt, Tag.line, Tag.text, toList_indent]

theorem toList_dumpAt_inner (hns : ns ≠ []) : (dumpAt depth (mk kind a ns)).toList =
    Tag.line (depth, .opening kind a) ++
      ((dumpAll (depth + 1) ns).toList ++ Tag.line (depth, .closing kind)) := by
  cases ns with
  | nil => exact absurd rfl hns
  | cons n ns => simp [dumpAt, dumpAll, Tag.line, Tag.text, toList_indent]

/-- What is shown of a node takes up no more than a line. -/
def OnOneLine (n : Node) : Prop := '\n' ∉ (tagText n.kind n.attributes).toList

theorem onOneLine_mk : OnOneLine (mk kind a ns) ↔ '\n' ∉ (tagText kind a).toList := Iff.rfl

theorem lines_line {tag : Tag} (h : '\n' ∉ tag.text) (depth : Nat) (rest : List Char) :
    lines (Tag.line (depth, tag) ++ rest) = Tag.line (depth, tag) :: lines rest := by
  have hline : '\n' ∉ List.replicate (4 * depth) ' ' ++ tag.text := by
    simp [h]
  rw [Tag.line, List.append_assoc, List.singleton_append, lines_append_feed hline]

theorem notMem_closing (kind : NodeKind) : '\n' ∉ (Tag.closing kind).text := by
  intro h
  have hname := fun h => kind.isNameChar_name '\n' h
  simp [Tag.text] at h
  cases hname h

mutual

/-- **The lines of a dump are its tags**, where every tag is on one line. -/
theorem lines_dumpAt : ∀ (n : Node) (depth : Nat) (rest : List Char),
    (∀ m ∈ n.preorder, OnOneLine m) → lines ((dumpAt depth n).toList ++ rest) =
      (tagsAt depth n).map Tag.line ++ lines rest
  | mk kind a [], depth, rest, h => by
    have htag : '\n' ∉ (Tag.single kind a).text := by
      simpa [Tag.text] using onOneLine_mk.1 (h (mk kind a []) (by simp))
    rw [toList_dumpAt_leaf, lines_line htag, tagsAt, List.map_singleton, List.singleton_append]
  | mk kind a (child :: children), depth, rest, h => by
    rw [preorder_mk, List.forall_mem_cons] at h
    have htag : '\n' ∉ (Tag.opening kind a).text := by
      simpa [Tag.text] using onOneLine_mk.1 h.1
    rw [toList_dumpAt_inner (List.cons_ne_nil _ _), List.append_assoc, lines_line htag,
      List.append_assoc, lines_dumpAll (child :: children) _ _ h.2,
      lines_line (notMem_closing kind), tagsAt_inner (List.cons_ne_nil _ _)]
    simp

theorem lines_dumpAll : ∀ (ns : List Node) (depth : Nat) (rest : List Char),
    (∀ m ∈ preorderAll ns, OnOneLine m) → lines ((dumpAll depth ns).toList ++ rest) =
      (tagsAll depth ns).map Tag.line ++ lines rest
  | [], depth, rest, h => by simp [dumpAll, tagsAll]
  | n :: ns, depth, rest, h => by
    rw [preorderAll_cons, List.forall_mem_append] at h
    rw [dumpAll, String.toList_append, List.append_assoc, lines_dumpAt n depth _ h.1,
      lines_dumpAll ns depth rest h.2, tagsAll, List.map_append, List.append_assoc]

end

end Node

end PascalBlock
