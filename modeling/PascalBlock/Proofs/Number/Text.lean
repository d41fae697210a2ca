import PascalBlock.Proofs.Number.Written
import PascalBlock.Token.Basic

/-!
# Numbers are known by their texts

The text of a number has digits, and besides them at most a point, the letter of an exponent and
signs. Integers without a sign are read back by their digits and reals by the literal that is
written for them, so different numbers of one kind have different texts.
-/

namespace PascalBlock

/-- The characters that the text of a number is made of. -/
def isNumberChar (c : Char) : Bool := c.isDigit || c == '.' || c == 'e' || c == '-'

theorem AllDigits.isNumberChar {cs : List Char} (h : AllDigits cs) :
    ∀ c ∈ cs, isNumberChar c = true := fun c hc => by simp [PascalBlock.isNumberChar, h c hc]

/-! ## Integers -/

theorem toDigits_inj {n m : Nat} (h : Nat.toDigits 10 n = Nat.toDigits 10 m) : n = m := by
  rw [← ofDigits_toDigits n, h, ofDigits_toDigits]

theorem Literal.toList_text_integer (n : Nat) :
    (Literal.integer n).text.toList = Nat.toDigits 10 n := by
  have hn : ¬ (n : Int) < 0 := Int.not_lt.2 (Int.natCast_nonneg n)
  rw [Literal.text, toList_toString_int, if_neg hn, Int.natAbs_natCast]

theorem Literal.text_integer_inj {n m : Nat}
    (h : (Literal.integer n).text = (Literal.integer m).text) : n = m := by
  have hdigits := congrArg String.toList h
  rw [toList_text_integer, toList_text_integer] at hdigits
  exact toDigits_inj hdigits

/-! ## Reals -/

theorem RealLiteral.isNumberChar (l : RealLiteral) :
    ∀ c ∈ l.chars, isNumberChar c = true := by
  have hfraction : ∀ c ∈ l.fractionChars, PascalBlock.isNumberChar c = true := by
    unfold fractionChars
    split
    · exact List.forall_mem_nil _
    · exact List.forall_mem_cons.2 ⟨by decide, l.fraction_digits.isNumberChar⟩
  have hexponent : ∀ c ∈ l.exponentChars, PascalBlock.isNumberChar c = true := by
    unfold exponentChars
    split
    · exact List.forall_mem_nil _
    · rw [toList_toString_int]
      refine List.forall_mem_cons.2 ⟨by decide, ?_⟩
      split
      · exact List.forall_mem_cons.2 ⟨by decide, (allDigits_toDigits _).isNumberChar⟩
      · exact (allDigits_toDigits _).isNumberChar
  rw [chars]
  exact List.forall_mem_append.2
    ⟨List.forall_mem_append.2 ⟨l.whole_digits.isNumberChar, hfraction⟩, hexponent⟩

namespace Binary64

theorem toList_text (rank : Fin rankCount) :
    (finite false rank).text.toList = magnitudeText rank := by simp [text]

/-- Different magnitudes are written differently. -/
theorem magnitudeText_inj {r s : Nat} (hr : r < rankCount) (hs : s < rankCount)
    (h : magnitudeText r = magnitudeText s) : r = s := by
  obtain ⟨l, hl, hlr⟩ := magnitudeText_eq hr
  obtain ⟨m, hm, hms⟩ := magnitudeText_eq hs
  have hvalue : some l.value = some m.value := by rw [← l.read, ← m.read, ← hl, ← hm, h]
  rw [← hlr, Option.some.inj hvalue, hms]

theorem text_inj {rank rank' : Fin rankCount}
    (h : (finite false rank).text = (finite false rank').text) : rank = rank' := by
  have htexts := congrArg String.toList h
  rw [toList_text, toList_text] at htexts
  exact Fin.ext (magnitudeText_inj rank.isLt rank'.isLt htexts)

end Binary64

end PascalBlock
