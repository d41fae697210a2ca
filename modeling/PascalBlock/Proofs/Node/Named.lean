import PascalBlock.Proofs.Node.Labelled
import PascalBlock.Proofs.Parser.Names
import PascalBlock.Proofs.Parser.Notes

/-!
# Trees without the places of names

A tree has the same names as the tree in which the places of its names are left out. Where every
name stands for one reference, nothing is lost that way (`eq_of_named`).
-/

namespace PascalBlock.Node

variable {kind : NodeKind} {a b : Attributes} {n m : Node} {ns ms : List Node}
  {lookup : String → Option EntryRef}

mutual

theorem preorder_named : ∀ n : Node, n.named.preorder = n.preorder.map named
  | mk kind a ns => by
    rw [named, preorder_mk, preorder_mk, preorderAll_named ns, List.map_cons, named]

theorem preorderAll_named : ∀ ns : List Node,
    preorderAll (namedAll ns) = (preorderAll ns).map named
  | [] => by simp [namedAll]
  | n :: ns => by
    rw [namedAll, preorderAll_cons, preorderAll_cons, preorder_named n, preorderAll_named ns,
      List.map_append]

end

theorem kind_named (n : Node) : n.named.kind = n.kind := by
  cases n
  rfl

/-- The names that the variables in trees refer to. -/
def names (ns : List Node) : List (Option String) := (references ns).map (·.map (·.name))

theorem name_named (n : Node) : n.named.entry?.map (·.name) = n.entry?.map (·.name) := by
  obtain ⟨kind, ⟨line, id, value⟩, ns⟩ := n
  rcases id with _ | (_ | _ | _) <;> rfl

theorem names_named (ns : List Node) : names (namedAll ns) = names ns := by
  have hkinds : (fun n : Node => n.kind == .variable) ∘ named = fun n => n.kind == .variable :=
    funext fun n => by rw [Function.comp_apply, kind_named]
  rw [names, names, references, references, preorderAll_named, List.filter_map, hkinds,
    List.map_map, List.map_map, List.map_map]
  exact List.map_congr_left fun n _ => name_named n

/-- The variables in the trees have the references that their names have. -/
def Refers (lookup : String → Option EntryRef) (ns : List Node) : Prop :=
  ∀ n ∈ preorderAll ns, n.kind = .variable →
    ∃ e, n.entry? = some e ∧ lookup e.name = some e

theorem refers_append :
    Refers lookup (ns ++ ms) ↔ Refers lookup ns ∧ Refers lookup ms := by
  rw [Refers, preorderAll_append]
  exact List.forall_mem_append

theorem refers_cons : Refers lookup (n :: ns) ↔ Refers lookup [n] ∧ Refers lookup ns :=
  @refers_append [n] ns lookup

theorem Refers.children (h : Refers lookup [mk kind a ns]) : Refers lookup ns :=
  fun n hn => h n (by simp [hn])

theorem Refers.reference {ref : EntryRef}
    (h : Refers lookup [mk .variable ⟨none, some (.entry ref), none⟩ ns]) :
    lookup ref.name = some ref := by
  obtain ⟨e, he, hlookup⟩ := h (mk .variable ⟨none, some (.entry ref), none⟩ ns) (by simp) rfl
  obtain rfl := Option.some.inj he
  exact hlookup

theorem attributes_of_named (hn : Labelled (mk kind a ns)) (hm : Labelled (mk kind b ms))
    (hrn : Refers lookup [mk kind a ns]) (hrm : Refers lookup [mk kind b ms])
    (h : a.named = b.named) : a = b := by
  cases hn.alike hm with
  | lines => simpa [Attributes.named, AttrValue.named] using h
  | nothing => rfl
  | @names ref ref' =>
    have hname : ref.name = ref'.name := by
      simpa [Attributes.named, AttrValue.named] using h
    have hlookup := hrn.reference
    rw [hname, hrm.reference] at hlookup
    rw [Option.some.inj hlookup]
  | values => simpa [Attributes.named, AttrValue.named] using h

mutual

/-- **The places of names are known from the names**, where every name has one reference. -/
theorem eq_of_named : ∀ n m : Node, Labelled n → Labelled m → Refers lookup [n] →
    Refers lookup [m] → n.named = m.named → n = m
  | mk kind a ns, mk kind' b ms, hn, hm, hrn, hrm, h => by
    rw [named, named, mk.injEq] at h
    obtain ⟨rfl, ha, hchildren⟩ := h
    rw [attributes_of_named hn hm hrn hrm ha,
      eq_of_namedAll ns ms hn.children hm.children hrn.children hrm.children hchildren]

theorem eq_of_namedAll : ∀ ns ms : List Node, (∀ n ∈ ns, Labelled n) → (∀ m ∈ ms, Labelled m) →
    Refers lookup ns → Refers lookup ms → namedAll ns = namedAll ms → ns = ms
  | [], [], _, _, _, _, _ => rfl
  | [], _ :: _, _, _, _, _, h | _ :: _, [], _, _, _, _, h => by cases h
  | n :: ns, m :: ms, hn, hm, hrn, hrm, h => by
    rw [List.forall_mem_cons] at hn hm
    rw [refers_cons] at hrn hrm
    rw [namedAll, namedAll, List.cons.injEq] at h
    rw [eq_of_named n m hn.1 hm.1 hrn.1 hrm.1 h.1, eq_of_namedAll ns ms hn.2 hm.2 hrn.2 hrm.2 h.2]

end

end PascalBlock.Node
