import PascalBlock.Text.Line

/-!
# The bytes of a text

Offsets count bytes of the UTF-8 form. That form is put together as the text is, so the bytes
between the offsets at which a part of a text begins and ends are those of the part
(`ReadsFrom.extract_eq`). Line feeds are bytes, so there are no more of them than bytes, and only in
a text of nothing but line feeds are there as many.
-/

namespace PascalBlock.Text

theorem byteLength_append (xs ys : List Char) :
    byteLength (xs ++ ys) = byteLength xs + byteLength ys := by
  induction xs with
  | nil => simp [byteLength]
  | cons x xs ih => simp [byteLength, ih, Nat.add_assoc]

theorem byteLength_pos {cs : List Char} (h : cs ≠ []) : 0 < byteLength cs := by
  cases cs with
  | nil => exact absurd rfl h
  | cons c cs =>
    have hc := Char.utf8Size_pos c
    rw [byteLength]
    omega

theorem size_utf8Encode (cs : List Char) : cs.utf8Encode.size = byteLength cs := by
  induction cs with
  | nil => rfl
  | cons c cs ih =>
    have hone : [c].utf8Encode.size = c.utf8Size := by simp [List.utf8Encode]
    rw [List.utf8Encode_cons, ByteArray.size_append, hone, ih, byteLength]

theorem utf8ByteSize_eq (s : String) : s.utf8ByteSize = byteLength s.toList := by
  rw [← String.size_toByteArray, ← size_utf8Encode, ← String.toByteArray_ofList,
    String.ofList_toList]

theorem toByteArray_eq (s : String) : s.toByteArray = s.toList.utf8Encode := by
  rw [← String.toByteArray_ofList, String.ofList_toList]

/-- The part between two others, by its offsets. -/
theorem extract_utf8Encode (before part behind : List Char) :
    (before ++ (part ++ behind)).utf8Encode.extract (byteLength before)
      (byteLength before + byteLength part) = part.utf8Encode := by
  rw [← size_utf8Encode, ← size_utf8Encode, List.utf8Encode_append, List.utf8Encode_append]
  refine (ByteArray.extract_append_size_add (i := 0)).trans ?_
  exact ByteArray.extract_append_eq_left rfl

/-! ## Places in a source -/

variable {source : String} {n : Nat} {cs part behind : List Char}

/-- From the offset `n` on, the source reads `cs`. -/
def ReadsFrom (source : String) (n : Nat) (cs : List Char) : Prop :=
  ∃ before, source.toList = before ++ cs ∧ byteLength before = n

theorem readsFrom_zero (source : String) : ReadsFrom source 0 source.toList := ⟨[], rfl, rfl⟩

namespace ReadsFrom

theorem past (h : ReadsFrom source n (part ++ cs)) : ReadsFrom source (n + byteLength part) cs := by
  obtain ⟨before, hsource, rfl⟩ := h
  exact ⟨before ++ part, by rw [hsource, List.append_assoc], byteLength_append before part⟩

theorem size_eq (h : ReadsFrom source n cs) : n + byteLength cs = source.utf8ByteSize := by
  obtain ⟨before, hsource, rfl⟩ := h
  rw [utf8ByteSize_eq, hsource, byteLength_append]

theorem extract_eq (h : ReadsFrom source n (part ++ behind)) :
    source.toByteArray.extract n (n + byteLength part) = (String.ofList part).toByteArray := by
  obtain ⟨before, hsource, rfl⟩ := h
  rw [toByteArray_eq, hsource, extract_utf8Encode, String.toByteArray_ofList]

end ReadsFrom

/-! ## Line feeds -/

theorem newlines_cons (c : Char) (cs : List Char) :
    newlines (c :: cs) = (if c = '\n' then 1 else 0) + newlines cs := by
  by_cases hc : c = '\n' <;> simp [newlines, hc, Nat.add_comm]

theorem newlines_append (xs ys : List Char) :
    newlines (xs ++ ys) = newlines xs + newlines ys := List.count_append

/-- Every line feed is a byte. -/
theorem newlines_le_byteLength (cs : List Char) : newlines cs ≤ byteLength cs := by
  induction cs with
  | nil => exact Nat.le_refl 0
  | cons c cs ih =>
    have hc := Char.utf8Size_pos c
    rw [newlines_cons, byteLength]
    split <;> omega

/-- A text of `n` line feeds. -/
def feeds (n : Nat) : String := String.ofList (List.replicate n '\n')

/-- Where every byte is a line feed there is nothing else. -/
theorem eq_replicate_of_byteLength_le (h : byteLength cs ≤ newlines cs) :
    cs = List.replicate (byteLength cs) '\n' := by
  induction cs with
  | nil => rfl
  | cons c cs ih =>
    have hc := Char.utf8Size_pos c
    have hle := newlines_le_byteLength cs
    rw [newlines_cons, byteLength] at h
    split at h
    · next hfeed =>
      have hsize : c.utf8Size = 1 := hfeed ▸ rfl
      rw [byteLength, hsize, Nat.add_comm, List.replicate_succ, ← ih (by omega), hfeed]
    · omega

end PascalBlock.Text
