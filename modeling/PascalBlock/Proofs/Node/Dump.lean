import PascalBlock.Proofs.Node.Tags
import PascalBlock.Proofs.Parser.Notes

/-!
# Reading dumps

A tag tells its kind and its attributes, but for the places of names, from what is shown of them
(`Tag.Readable.line_inj`). So does the dump of a tree, so long as no string in it goes over the end
of a line (`named_of_dump`).
-/

namespace PascalBlock

open Text

namespace Node

variable {kind : NodeKind} {a b : Attributes} {n m : Node} {ns ms : List Node}

/-! ## What a tag says -/

/-- The attributes of a tag as they are shown. -/
def shown (a : Attributes) : List Char := a.toList.flatMap fun v => (attributeText v).toList

theorem toList_tagText (kind : NodeKind) (a : Attributes) :
    (tagText kind a).toList = kind.name.toList ++ shown a := by
  simp [tagText, shown, List.flatMap_map]

/-- Attributes begin with a blank. -/
theorem stops_shown (a : Attributes) : Stops NodeKind.isNameChar (shown a) := by
  unfold shown
  cases a.toList with
  | nil => exact stops_nil _
  | cons v vs => cases v <;> simpa [attributeText] using stops_cons.2 (by decide)

/-- Attributes end with a quote. -/
theorem shown_eq (a : Attributes) : shown a = [] ∨ ∃ cs, shown a = cs ++ ['"'] := by
  unfold shown
  rcases List.eq_nil_or_concat' a.toList with hnil | ⟨vs, v, hvs⟩
  · simp [hnil]
  · have hv : ∃ cs, (attributeText v).toList = cs ++ ['"'] := by
      cases v <;> exact ⟨_, by rw [attributeText, String.toList_append]; rfl⟩
    obtain ⟨cs, hcs⟩ := hv
    exact .inr ⟨_, by
      rw [hvs, List.flatMap_append, List.flatMap_singleton, hcs, ← List.append_assoc]⟩

/-- **Attributes are known by what is shown of them**, up to the places of names. -/
theorem named_of_shown (hn : Labelled (mk kind a ns)) (hm : Labelled (mk kind b ms))
    (h : shown a = shown b) : a.named = b.named := by
  cases hn.alike hm with
  | lines _ line line' =>
    have hline : Nat.toDigits 10 line.toNat = Nat.toDigits 10 line'.toNat := by
      simpa [shown, Attributes.toList, attributeText] using h
    rw [UInt32.toNat_inj.1 (toDigits_inj hline)]
  | nothing => rfl
  | @names ref ref' =>
    have hnames : ref.name.toList = ref'.name.toList := by
      simpa [shown, Attributes.toList, attributeText] using h
    simp [Attributes.named, AttrValue.named, String.toList_inj.1 hnames]
  | @values _ value value' hvalue hvalue' =>
    have htext : value.text.toList = value'.text.toList := by
      simpa [shown, Attributes.toList, attributeText] using h
    rw [hvalue.eq_of_text hvalue' (String.toList_inj.1 htext)]

/-- A tag with names without their places. -/
def Tag.named : Tag → Tag
  | opening kind a => opening kind a.named
  | single kind a => single kind a.named
  | closing kind => closing kind

/-- A tag with the attributes that go with its kind. -/
def Tag.Readable : Tag → Prop
  | .opening kind a | .single kind a => ∃ ns, Labelled (mk kind a ns)
  | .closing _ => True

theorem tagText_inj {kind' : NodeKind} (hn : ∃ ns, Labelled (mk kind a ns))
    (hm : ∃ ms, Labelled (mk kind' b ms)) (h : (tagText kind a).toList = (tagText kind' b).toList) :
    kind = kind' ∧ a.named = b.named := by
  obtain ⟨ns, hn⟩ := hn
  obtain ⟨ms, hm⟩ := hm
  rw [toList_tagText, toList_tagText] at h
  obtain ⟨rfl, hshown⟩ := NodeKind.name_append_inj (stops_shown a) (stops_shown b) h
  exact ⟨rfl, named_of_shown hn hm hshown⟩

/-- No tag ends with the mark of one by itself before that mark is put there. -/
theorem tagText_ne (kind : NodeKind) (a : Attributes) (cs : List Char) :
    (tagText kind a).toList ≠ cs ++ ['/'] := by
  intro h
  rw [toList_tagText] at h
  rcases shown_eq a with hnil | ⟨ds, hds⟩
  · rw [hnil, List.append_nil] at h
    cases kind.isNameChar_name '/' (by simp [h])
  · rw [hds, ← List.append_assoc] at h
    cases List.append_inj_right' h rfl

theorem opening_ne_single (kind kind' : NodeKind) (a b : Attributes) :
    (Tag.opening kind a).text ≠ (Tag.single kind' b).text := by
  intro h
  have hends : (tagText kind a).toList ++ ['>'] =
      ((tagText kind' b).toList ++ [' ', '/']) ++ ['>'] := by simpa [Tag.text] using h
  refine tagText_ne kind a ((tagText kind' b).toList ++ [' ']) ?_
  simpa using List.append_inj_left' hends rfl

/-- A kind does not begin with the mark of a tag that closes. -/
theorem tagText_append_ne (kind : NodeKind) (a : Attributes) (r s : List Char) :
    (tagText kind a).toList ++ r ≠ '/' :: s := by
  have hname : ∃ c cs, kind.name.toList = c :: cs ∧ c ≠ '/' := by
    cases kind <;> exact ⟨_, _, rfl, by decide⟩
  obtain ⟨c, cs, hc, hne⟩ := hname
  rw [toList_tagText, hc]
  simp [hne]

/-- Tags are known by their texts. -/
theorem Tag.Readable.text_inj {tag tag' : Tag} (h : tag.Readable) (h' : tag'.Readable)
    (htext : tag.text = tag'.text) : tag.named = tag'.named := by
  cases tag with
  | opening kind a =>
    cases tag' with
    | opening kind' b =>
      obtain ⟨rfl, ha⟩ := tagText_inj h h' (by simpa [Tag.text] using htext)
      simp [Tag.named, ha]
    | single => exact absurd htext (opening_ne_single _ _ _ _)
    | closing => exact absurd (List.cons.inj htext).2 (tagText_append_ne _ _ _ _)
  | single kind a =>
    cases tag' with
    | opening => exact absurd htext.symm (opening_ne_single _ _ _ _)
    | single kind' b =>
      obtain ⟨rfl, ha⟩ := tagText_inj h h' (by simpa [Tag.text] using htext)
      simp [Tag.named, ha]
    | closing => exact absurd (List.cons.inj htext).2 (tagText_append_ne _ _ _ _)
  | closing kind =>
    cases tag' with
    | opening | single =>
      exact absurd (List.cons.inj htext).2.symm (tagText_append_ne _ _ _ _)
    | closing kind' =>
      have hname : kind.name.toList = kind'.name.toList := by simpa [Tag.text] using htext
      rw [NodeKind.name_inj (String.toList_inj.1 hname)]

/-- **Lines are known by their texts**, but for the places of names. -/
theorem Tag.Readable.line_inj {t u : Nat × Tag} (h : t.2.Readable) (h' : u.2.Readable)
    (hline : Tag.line t = Tag.line u) : Prod.map id Tag.named t = Prod.map id Tag.named u := by
  obtain ⟨depth, tag⟩ := t
  obtain ⟨depth', tag'⟩ := u
  have htag (tag : Tag) : Stops (· == ' ') tag.text := by
    cases tag <;> exact stops_cons.2 (by decide)
  have hblanks (n : Nat) : ∀ c ∈ List.replicate n ' ', (c == ' ') = true := by simp
  have htexts := List.append_inj_left' hline rfl
  obtain ⟨hindent, htext⟩ :=
    append_inj_of_stops (hblanks _) (hblanks _) (htag tag) (htag tag') htexts
  have hdepth : 4 * depth = 4 * depth' := by simpa using congrArg List.length hindent
  obtain rfl : depth = depth' := by omega
  exact congrArg (Prod.mk depth) (h.text_inj h' htext)

theorem map_named_of_map_line {ts us : List (Nat × Tag)} (ht : ∀ t ∈ ts, t.2.Readable)
    (hu : ∀ u ∈ us, u.2.Readable) (h : ts.map Tag.line = us.map Tag.line) :
    ts.map (Prod.map id Tag.named) = us.map (Prod.map id Tag.named) := by
  induction ts generalizing us with
  | nil =>
    cases us with
    | nil => rfl
    | cons u us => cases h
  | cons t ts ih =>
    cases us with
    | nil => cases h
    | cons u us =>
      rw [List.forall_mem_cons] at ht hu
      rw [List.map_cons, List.map_cons, List.cons.injEq] at h
      rw [List.map_cons, List.map_cons, ht.1.line_inj hu.1 h.1, ih ht.2 hu.2 h.2]

mutual

theorem readable_tagsAt : ∀ (n : Node) (depth : Nat), Labelled n →
    ∀ t ∈ tagsAt depth n, t.2.Readable
  | mk kind a [], depth, h => List.forall_mem_singleton.2 ⟨[], h⟩
  | mk kind a (child :: rest), depth, h => by
    rw [tagsAt_inner (List.cons_ne_nil _ _), List.forall_mem_cons, List.forall_mem_append]
    exact ⟨⟨_, h⟩, readable_tagsAll _ _ h.children, List.forall_mem_singleton.2 trivial⟩

theorem readable_tagsAll : ∀ (ns : List Node) (depth : Nat), (∀ n ∈ ns, Labelled n) →
    ∀ t ∈ tagsAll depth ns, t.2.Readable
  | [], depth, _ => List.forall_mem_nil _
  | n :: ns, depth, h => by
    rw [List.forall_mem_cons] at h
    exact List.forall_mem_append.2 ⟨readable_tagsAt n depth h.1, readable_tagsAll ns depth h.2⟩

end

/-! ## Trees and their dumps -/

mutual

/-- Names without their places, in the tree or in its tags. -/
theorem tagsAt_named : ∀ (n : Node) (depth : Nat),
    tagsAt depth n.named = (tagsAt depth n).map (Prod.map id Tag.named)
  | mk kind a [], depth => by simp [tagsAt, Tag.named]
  | mk kind a (child :: rest), depth => by
    rw [named, namedAll, tagsAt_inner (List.cons_ne_nil _ _), ← namedAll,
      tagsAll_named (child :: rest), tagsAt_inner (List.cons_ne_nil _ _)]
    simp [Tag.named]

theorem tagsAll_named : ∀ (ns : List Node) (depth : Nat),
    tagsAll depth (namedAll ns) = (tagsAll depth ns).map (Prod.map id Tag.named)
  | [], depth => rfl
  | n :: ns, depth => by
    rw [namedAll, tagsAll, tagsAt_named n, tagsAll_named ns, tagsAll, List.map_append]

end

/-- A string that does not go over the end of a line. -/
def Unbroken (text : String) : Prop := '\n' ∉ text.toList

instance (text : String) : Decidable (Unbroken text) :=
  inferInstanceAs (Decidable (_ ∉ _))

theorem unbroken_of_isWordChar {text : String} (h : ∀ c ∈ text.toList, isWordChar c = true) :
    Unbroken text := fun hfeed => absurd (h '\n' hfeed) (by decide)

theorem unbroken_of_goesWith {value : Literal} (h : value.GoesWith kind)
    (hs : ∀ text, value = .string text → Unbroken text) : Unbroken value.text := by
  cases h with
  | integer i => exact unbroken_of_isWordChar (isWordChar_integer i)
  | real rank => exact unbroken_of_isWordChar (isWordChar_real rank)
  | string text => exact hs text rfl

/-- What is shown of a node is on one line if its string is. -/
theorem Labelled.onOneLine (h : Labelled n)
    (hs : ∀ text, n.literal? = some (.string text) → Unbroken text) : OnOneLine n := by
  obtain ⟨kind, a, ns⟩ := n
  have hkind : '\n' ∉ kind.name.toList :=
    fun hfeed => absurd (kind.isNameChar_name _ hfeed) (by decide)
  have hshown : '\n' ∉ shown a := by
    cases h with
    | statement line =>
      have hdigits := (allDigits_toDigits line.toNat).notMem_feed
      simpa [shown, Attributes.toList, attributeText] using hdigits
    | operator => simp [shown, Attributes.toList, Attributes.empty]
    | @name ref hname =>
      have hunbroken : '\n' ∉ ref.name.toList :=
        unbroken_of_isWordChar (isWordChar_of_isName hname)
      simpa [shown, Attributes.toList, attributeText] using hunbroken
    | @constant _ value hvalue =>
      have hunbroken : '\n' ∉ value.text.toList :=
        unbroken_of_goesWith hvalue fun text htext => hs text (by rw [← htext]; rfl)
      simpa [shown, Attributes.toList, attributeText] using hunbroken
  rw [onOneLine_mk, toList_tagText, List.mem_append, not_or]
  exact ⟨hkind, hshown⟩

/-- **The lines of the dump of a tree are the tags of the tree**. -/
theorem lines_dump (h : Labelled n) (hs : StringsAll Unbroken [n]) :
    lines (dump (some n)).toList = (tagsAt 0 n).map Tag.line := by
  have hlines : ∀ m ∈ n.preorder, OnOneLine m := fun m hm =>
    (Labelled.preorder n h m hm).onOneLine (hs m (by simpa using hm))
  have hall := lines_dumpAt n 0 [] hlines
  rwa [List.append_nil, show lines [] = [] from rfl, List.append_nil] at hall

/-- **Trees of one dump are the same** but for the places of names. -/
theorem named_of_dump (hn : Labelled n) (hm : Labelled m) (hsn : StringsAll Unbroken [n])
    (hsm : StringsAll Unbroken [m]) (h : dump (some n) = dump (some m)) : n.named = m.named := by
  have hlines : (tagsAt 0 n).map Tag.line = (tagsAt 0 m).map Tag.line := by
    rw [← lines_dump hn hsn, h, lines_dump hm hsm]
  refine eq_of_tagsAt 0 ?_
  rw [tagsAt_named, tagsAt_named]
  exact map_named_of_map_line (readable_tagsAt n 0 hn) (readable_tagsAt m 0 hm) hlines

end Node

end PascalBlock
