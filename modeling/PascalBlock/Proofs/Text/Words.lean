import PascalBlock.Unicode.Property

/-!
# Words

The words of a text are what stands between its blanks. Everything about them follows from what they
are on both sides of a blank (`words_append_blank`) and where there is none (`words_of_no_blank`).
-/

namespace PascalBlock.Text

/-- A text split at its blanks. -/
def words (cs : List Char) : List (List Char) :=
  (cs.splitOnP Unicode.isWhiteSpace).filter fun w => !w.isEmpty

variable {c : Char} {xs : List Char}

theorem words_append_blank (hc : Unicode.isWhiteSpace c = true) (xs ys : List Char) :
    words (xs ++ c :: ys) = words xs ++ words ys := by
  rw [words, List.splitOnP_append_cons xs ys hc, List.filter_append, ← words, ← words]

/-- A text without blanks is one word. -/
theorem words_of_no_blank (hne : xs ≠ []) (h : ∀ c ∈ xs, Unicode.isWhiteSpace c = false) :
    words xs = [xs] := by
  simp [words, List.splitOnP_eq_singleton h, hne]

theorem words_nil : words [] = [] := by simp [words]

theorem words_blank (hc : Unicode.isWhiteSpace c = true) (xs : List Char) :
    words (c :: xs) = words xs := by
  have happend := words_append_blank hc [] xs
  rwa [words_nil] at happend

theorem words_blanks (hc : Unicode.isWhiteSpace c = true) (n : Nat) (xs : List Char) :
    words (List.replicate n c ++ xs) = words xs := by
  induction n with
  | zero => rfl
  | succ n ih => rw [List.replicate_succ, List.cons_append, words_blank hc, ih]

end PascalBlock.Text
