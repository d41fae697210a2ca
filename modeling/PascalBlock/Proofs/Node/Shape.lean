import PascalBlock.Proofs.Node.Labelled
import PascalBlock.Proofs.RoundTrip
import PascalBlock.Proofs.Text.Splitter

/-!
# Reading shapes

The shape with kinds is a text in which the parts of a node stand between parentheses, with commas
between them. Strings show in it as they are, between quotes, so a string that has one of the marks
that may follow it (a quote before a parenthesis or a comma) is not told from the shape around it.
Where no string has such a mark, the front of a text holds at most one shape
(`kindShape_append_inj`).
-/

namespace PascalBlock

open Text

/-! ## Kinds -/

namespace NodeKind

theorem ofName?_name (kind : NodeKind) : ofName? kind.name = some kind := by
  cases kind <;> decide

theorem name_inj {kind kind' : NodeKind} (h : kind.name = kind'.name) : kind = kind' :=
  Option.some.inj (by rw [← ofName?_name kind, h, ofName?_name])

/-- The characters that the names of kinds are made of. -/
def isNameChar (c : Char) : Bool := c.isUpper || c == '_'

theorem isNameChar_name (kind : NodeKind) : ∀ c ∈ kind.name.toList, isNameChar c = true := by
  refine List.all_eq_true.1 ?_
  cases kind <;> decide

/-- A kind is told from what does not go on with its name. -/
theorem name_append_inj {kind kind' : NodeKind} {r s : List Char} (hr : Stops isNameChar r)
    (hs : Stops isNameChar s) (h : kind.name.toList ++ r = kind'.name.toList ++ s) :
    kind = kind' ∧ r = s := by
  obtain ⟨hname, hrest⟩ :=
    append_inj_of_stops kind.isNameChar_name kind'.isNameChar_name hr hs h
  exact ⟨name_inj (String.toList_inj.1 hname), hrest⟩

end NodeKind

namespace Node

/-! ## Strings -/

/-- No quote in the text stands where it would look like the one that closes a string: before a
parenthesis that closes, or before a comma and a blank. -/
def ClosesOnce (text : String) : Prop :=
  ¬ ['\'', ')'] <:+: text.toList ∧ ¬ ['\'', ',', ' '] <:+: text.toList

instance (text : String) : Decidable (ClosesOnce text) :=
  inferInstanceAs (Decidable (_ ∧ _))

/-- What follows a part of a shape: a parenthesis that closes, or a comma and a blank. -/
def FollowsPart (rest : List Char) : Prop := [')'] <+: rest ∨ [',', ' '] <+: rest

variable {r s xs ys : List Char} {text text' : String}

theorem followsPart_close (rest : List Char) : FollowsPart (')' :: rest) := .inl ⟨rest, rfl⟩

theorem followsPart_comma (rest : List Char) : FollowsPart (',' :: ' ' :: rest) :=
  .inr ⟨rest, rfl⟩

theorem FollowsPart.stops {p : Char → Bool} (h : FollowsPart r) (hclose : p ')' = false)
    (hcomma : p ',' = false) : Stops p r := by
  rcases h with ⟨rest, rfl⟩ | ⟨rest, rfl⟩
  · exact stops_cons.2 hclose
  · exact stops_cons.2 hcomma

/-- A quote that is not the last one of two would close the longer string too soon. -/
theorem eq_nil_of_quote (xs : List Char) (hr : FollowsPart r) (h : '\'' :: r = ys ++ '\'' :: s)
    (hclose : ¬ ['\'', ')'] <:+: xs ++ ys) (hcomma : ¬ ['\'', ',', ' '] <:+: xs ++ ys) :
    ys = [] := by
  rcases hr with ⟨rest, rfl⟩ | ⟨rest, rfl⟩
  · match ys, h with
    | [], _ => rfl
    | [_], h => simp at h
    | _ :: _ :: ys, h =>
      simp only [List.cons_append, List.cons.injEq] at h
      obtain ⟨rfl, rfl, -⟩ := h
      exact absurd ⟨xs, ys, by simp⟩ hclose
  · match ys, h with
    | [], _ => rfl
    | [_], h | [_, _], h => simp at h
    | _ :: _ :: _ :: ys, h =>
      simp only [List.cons_append, List.cons.injEq] at h
      obtain ⟨rfl, rfl, rfl, -⟩ := h
      exact absurd ⟨xs, ys, by simp⟩ hcomma

/-- A string is told from what follows it. -/
theorem string_append_inj (ht : ClosesOnce text) (ht' : ClosesOnce text') (hr : FollowsPart r)
    (hs : FollowsPart s) (h : text.toList ++ '\'' :: r = text'.toList ++ '\'' :: s) :
    text = text' ∧ r = s := by
  rcases List.append_eq_append_iff.1 h with ⟨ys, hys, hrest⟩ | ⟨ys, hys, hrest⟩
  · obtain rfl := eq_nil_of_quote text.toList hr hrest (hys ▸ ht'.1) (hys ▸ ht'.2)
    rw [List.append_nil] at hys
    exact ⟨String.toList_inj.1 hys.symm, (List.cons.inj hrest).2⟩
  · obtain rfl := eq_nil_of_quote text'.toList hs hrest (hys ▸ ht.1) (hys ▸ ht.2)
    rw [List.append_nil] at hys
    exact ⟨String.toList_inj.1 hys, (List.cons.inj hrest).2.symm⟩

/-! ## Operands -/

variable {kind : NodeKind} {a b : Attributes} {n : Node} {ns ms : List Node}

/-- The characters that names and numbers are made of. -/
def isWordChar (c : Char) : Bool := c.isLower || c == '_' || isNumberChar c

theorem isWordChar_of_isName (h : IsName text) : ∀ c ∈ text.toList, isWordChar c = true := by
  intro c hc
  rcases h.chars c hc with h | h | rfl
  · simp [isWordChar, h]
  · simp [isWordChar, isNumberChar, h]
  · decide

theorem isWordChar_of_isNumberChar (h : ∀ c ∈ xs, isNumberChar c = true) :
    ∀ c ∈ xs, isWordChar c = true := fun c hc => by simp [isWordChar, h c hc]

theorem isWordChar_integer (n : Nat) :
    ∀ c ∈ (Literal.integer n).text.toList, isWordChar c = true := by
  rw [Literal.toList_text_integer]
  exact isWordChar_of_isNumberChar (allDigits_toDigits n).isNumberChar

theorem isWordChar_real (rank : Fin Binary64.rankCount) :
    ∀ c ∈ (Literal.real (.finite false rank)).text.toList, isWordChar c = true := by
  obtain ⟨l, hl, -⟩ := Binary64.magnitudeText_eq rank.isLt
  rw [Literal.text, Binary64.toList_text, hl]
  exact isWordChar_of_isNumberChar l.isNumberChar

/-- A name or a number is told from what follows it. -/
theorem word_append_inj (ht : ∀ c ∈ text.toList, isWordChar c = true)
    (ht' : ∀ c ∈ text'.toList, isWordChar c = true) (hr : FollowsPart r) (hs : FollowsPart s)
    (h : text.toList ++ r = text'.toList ++ s) : text = text' ∧ r = s := by
  obtain ⟨htext, hrest⟩ := append_inj_of_stops ht ht' (hr.stops (by decide) (by decide))
    (hs.stops (by decide) (by decide)) h
  exact ⟨String.toList_inj.1 htext, hrest⟩

/-- An operand is told from what follows it. -/
theorem operandShape_append_inj (hn : Labelled (mk kind a ns)) (hm : Labelled (mk kind b ms))
    (hk : kind.isOperand = true) (hsn : StringsAll ClosesOnce [mk kind a ns])
    (hsm : StringsAll ClosesOnce [mk kind b ms]) (hr : FollowsPart r) (hs : FollowsPart s)
    (h : (operandShape (mk kind a ns)).toList ++ r = (operandShape (mk kind b ms)).toList ++ s) :
    (mk kind a ns).outline = (mk kind b ms).outline ∧ r = s := by
  obtain rfl := hn.eq_nil hk
  obtain rfl := hm.eq_nil hk
  cases hn.alike hm with
  | lines hinner | nothing hinner =>
    rw [hinner] at hk
    cases hk
  | names hname hname' =>
    obtain ⟨htext, hrest⟩ :=
      word_append_inj (isWordChar_of_isName hname) (isWordChar_of_isName hname') hr hs h
    exact ⟨by simp [outline_eq, asLeaf?, entry?, htext], hrest⟩
  | values hvalue hvalue' =>
    cases hvalue with
    | integer i =>
      cases hvalue' with
      | integer j =>
        obtain ⟨htext, hrest⟩ :=
          word_append_inj (isWordChar_integer i) (isWordChar_integer j) hr hs h
        exact ⟨by rw [Literal.text_integer_inj htext], hrest⟩
    | real rank =>
      cases hvalue' with
      | real rank' =>
        obtain ⟨htext, hrest⟩ :=
          word_append_inj (isWordChar_real rank) (isWordChar_real rank') hr hs h
        exact ⟨by rw [Binary64.text_inj htext], hrest⟩
    | string text =>
      cases hvalue' with
      | string text' =>
        have hquoted : text.toList ++ '\'' :: r = text'.toList ++ '\'' :: s := by
          simpa [operandShape, literal?, Literal.text] using h
        obtain ⟨htext, hrest⟩ := string_append_inj hsn.value hsm.value hr hs hquoted
        exact ⟨by rw [htext], hrest⟩

/-! ## Trees -/

/-- Shapes with a comma and a blank in front of each. -/
def moreParts (ns : List Node) : List Char := ns.flatMap fun n => ',' :: ' ' :: n.kindShape.toList

theorem followsPart_moreParts (ns : List Node) (rest : List Char) :
    FollowsPart (moreParts ns ++ ')' :: rest) := by
  cases ns with
  | nil => exact followsPart_close rest
  | cons n ns => exact followsPart_comma _

theorem toList_intercalate (n : Node) (ns : List Node) :
    (", ".intercalate (kindShapes (n :: ns))).toList = n.kindShape.toList ++ moreParts ns := by
  induction ns generalizing n with
  | nil => simp [kindShapes, moreParts]
  | cons m ns ih =>
    rw [kindShapes, kindShapes, String.intercalate_cons_cons, ← kindShapes]
    simp [ih m, moreParts]

/-- The shapes below a node, in parentheses if there are any. -/
def parts : List Node → List Char
  | [] => []
  | n :: ns => '(' :: (n.kindShape.toList ++ (moreParts ns ++ [')']))

theorem toList_kindShape (hk : kind.isOperand = false) :
    (mk kind a ns).kindShape.toList = kind.name.toList ++ parts ns := by
  cases ns with
  | nil => simp [kindShape, kindShapes, shapeOver, parts, hk]
  | cons n ns =>
    have hparts : (kindShapes (n :: ns)).isEmpty = false := by rw [kindShapes]; rfl
    simp [kindShape, shapeOver, parts, hk, hparts, toList_intercalate n ns]

theorem toList_kindShape_operand (hk : kind.isOperand = true) :
    (mk kind a ns).kindShape.toList =
      kind.name.toList ++ ' ' :: (operandShape (mk kind a ns)).toList := by
  simp [kindShape, hk]

theorem stops_parts (hr : FollowsPart r) (ns : List Node) :
    Stops NodeKind.isNameChar (parts ns ++ r) := by
  cases ns with
  | nil => exact hr.stops (by decide) (by decide)
  | cons n ns => exact stops_cons.2 (by decide)

/-- The kind stands in front of the shape. -/
theorem exists_kindShape (n : Node) (hr : FollowsPart r) : ∃ rest,
    n.kindShape.toList ++ r = n.kind.name.toList ++ rest ∧ Stops NodeKind.isNameChar rest := by
  obtain ⟨kind, a, ns⟩ := n
  by_cases hk : kind.isOperand = true
  · rw [toList_kindShape_operand hk, List.append_assoc]
    exact ⟨_, rfl, stops_cons.2 (by decide)⟩
  · rw [toList_kindShape (Bool.not_eq_true _ ▸ hk), List.append_assoc]
    exact ⟨_, rfl, stops_parts hr ns⟩

theorem kind_of_kindShape {n m : Node} (hr : FollowsPart r) (hs : FollowsPart s)
    (h : n.kindShape.toList ++ r = m.kindShape.toList ++ s) : n.kind = m.kind := by
  obtain ⟨rest, hrest, hstops⟩ := exists_kindShape n hr
  obtain ⟨rest', hrest', hstops'⟩ := exists_kindShape m hs
  rw [hrest, hrest'] at h
  exact (NodeKind.name_append_inj hstops hstops' h).1

mutual

/-- **The front of a text holds one shape at most**, where strings show their ends. -/
theorem kindShape_append_inj : ∀ (n m : Node) {r s : List Char}, Labelled n → Labelled m →
    StringsAll ClosesOnce [n] → StringsAll ClosesOnce [m] → FollowsPart r → FollowsPart s →
    n.kindShape.toList ++ r = m.kindShape.toList ++ s → n.outline = m.outline ∧ r = s
  | mk kind a ns, mk kind' b ms, r, s, hn, hm, hsn, hsm, hr, hs, h => by
    obtain rfl : kind = kind' := kind_of_kindShape hr hs h
    by_cases hk : kind.isOperand = true
    · rw [toList_kindShape_operand hk, toList_kindShape_operand hk, List.append_assoc,
        List.append_assoc, List.append_right_inj] at h
      exact operandShape_append_inj hn hm hk hsn hsm hr hs (List.cons.inj h).2
    · rw [Bool.not_eq_true] at hk
      rw [toList_kindShape hk, toList_kindShape hk, List.append_assoc, List.append_assoc,
        List.append_right_inj] at h
      obtain ⟨houtlines, hrest⟩ :=
        parts_append_inj ns ms hn.children hm.children hsn.children hsm.children hr hs h
      refine ⟨?_, hrest⟩
      rw [outline, outline, asLeaf?_eq_none_of_kind hk, asLeaf?_eq_none_of_kind hk, houtlines]

theorem parts_append_inj : ∀ (ns ms : List Node) {r s : List Char},
    (∀ n ∈ ns, Labelled n) → (∀ n ∈ ms, Labelled n) → StringsAll ClosesOnce ns →
    StringsAll ClosesOnce ms → FollowsPart r → FollowsPart s →
    parts ns ++ r = parts ms ++ s → outlines ns = outlines ms ∧ r = s
  | [], [], _, _, _, _, _, _, _, _, h => ⟨rfl, h⟩
  | [], m :: ms, r, _, _, _, _, _, hr, _, h => by
    have hstops : Stops (· == '(') r := hr.stops (by decide) (by decide)
    rw [parts, List.nil_append] at h
    rw [h] at hstops
    cases stops_cons.1 hstops
  | n :: ns, [], _, s, _, _, _, _, _, hs, h => by
    have hstops : Stops (· == '(') s := hs.stops (by decide) (by decide)
    rw [parts, parts, List.nil_append] at h
    rw [← h] at hstops
    cases stops_cons.1 hstops
  | n :: ns, m :: ms, r, s, hn, hm, hsn, hsm, _, _, h => by
    rw [List.forall_mem_cons] at hn hm
    rw [stringsAll_cons] at hsn hsm
    have hparts : n.kindShape.toList ++ (moreParts ns ++ ')' :: r) =
        m.kindShape.toList ++ (moreParts ms ++ ')' :: s) := by simpa [parts] using h
    obtain ⟨hfirst, hmore⟩ := kindShape_append_inj n m hn.1 hm.1 hsn.1 hsm.1
      (followsPart_moreParts ns r) (followsPart_moreParts ms s) hparts
    obtain ⟨hothers, hrest⟩ := moreParts_append_inj ns ms hn.2 hm.2 hsn.2 hsm.2 hmore
    exact ⟨by rw [outlines, outlines, hfirst, hothers], hrest⟩

theorem moreParts_append_inj : ∀ (ns ms : List Node) {r s : List Char},
    (∀ n ∈ ns, Labelled n) → (∀ n ∈ ms, Labelled n) → StringsAll ClosesOnce ns →
    StringsAll ClosesOnce ms → moreParts ns ++ ')' :: r = moreParts ms ++ ')' :: s →
    outlines ns = outlines ms ∧ r = s
  | [], [], _, _, _, _, _, _, h => ⟨rfl, (List.cons.inj h).2⟩
  | [], _ :: _, _, _, _, _, _, _, h => by simp [moreParts] at h
  | _ :: _, [], _, _, _, _, _, _, h => by simp [moreParts] at h
  | n :: ns, m :: ms, r, s, hn, hm, hsn, hsm, h => by
    rw [List.forall_mem_cons] at hn hm
    rw [stringsAll_cons] at hsn hsm
    have hparts : n.kindShape.toList ++ (moreParts ns ++ ')' :: r) =
        m.kindShape.toList ++ (moreParts ms ++ ')' :: s) := by simpa [moreParts] using h
    obtain ⟨hfirst, hmore⟩ := kindShape_append_inj n m hn.1 hm.1 hsn.1 hsm.1
      (followsPart_moreParts ns r) (followsPart_moreParts ms s) hparts
    obtain ⟨hothers, hrest⟩ := moreParts_append_inj ns ms hn.2 hm.2 hsn.2 hsm.2 hmore
    exact ⟨by rw [outlines, outlines, hfirst, hothers], hrest⟩

end

/-- What an operand adds to a shape is in its outline. -/
theorem operandShape_congr (hk : kind.isOperand = true)
    (h : (mk kind a ns).asLeaf? = (mk kind b ms).asLeaf?) :
    (mk kind a ns).operandShape = (mk kind b ms).operandShape := by
  have hname : (mk kind a ns).kind = kind := rfl
  have hname' : (mk kind b ms).kind = kind := rfl
  cases kind <;> cases hk <;>
    simp only [asLeaf?, hname, hname', Option.some.injEq, Leaf.variable.injEq,
      Leaf.constant.injEq, true_and] at h <;>
    simp only [operandShape, hname, hname', h]

mutual

/-- The shape says nothing but the outline. -/
theorem kindShape_congr : ∀ n m : Node, n.outline = m.outline → n.kindShape = m.kindShape
  | mk kind a ns, mk kind' b ms, h => by
    simp only [outline, Outline.mk.injEq] at h
    obtain ⟨rfl, hl, hc⟩ := h
    rw [kindShape, kindShape, kindShapes_congr ns ms hc]
    split
    next hk => rw [operandShape_congr hk hl]
    next => rfl

theorem kindShapes_congr : ∀ ns ms : List Node, outlines ns = outlines ms →
    kindShapes ns = kindShapes ms
  | [], [], _ => rfl
  | [], _ :: _, h => by cases h
  | _ :: _, [], h => by cases h
  | n :: ns, m :: ms, h => by
    simp only [outlines, List.cons.injEq] at h
    rw [kindShapes, kindShapes, kindShape_congr n m h.1, kindShapes_congr ns ms h.2]

end

/-- **Trees of one shape have one outline**, where strings show their ends. -/
theorem outline_of_kindShape {n m : Node} (hn : Labelled n) (hm : Labelled m)
    (hsn : StringsAll ClosesOnce [n]) (hsm : StringsAll ClosesOnce [m])
    (h : n.kindShape = m.kindShape) : n.outline = m.outline :=
  (kindShape_append_inj n m hn hm hsn hsm (followsPart_close []) (followsPart_close [])
    (by rw [h])).1

end Node

end PascalBlock
