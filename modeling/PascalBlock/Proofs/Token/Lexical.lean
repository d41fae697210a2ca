import PascalBlock.Proofs.Node.WellFormed
import PascalBlock.Proofs.Token.FirstMatch

/-!
# What tokens carry

A token that is scanned carries what goes with its kind: an identifier a name that is no reserved
word, a constant a value within the range of its kind. Main result: all tokens of a source do.
-/

namespace PascalBlock

open Text LexemeClass
open scoped Computability

/-- The name or the value is one that goes with the kind. The sign of a real is clear. -/
structure Token.Lexical (t : Token) : Prop where
  name : t.kind = .identifier → IsName t.name
  integer : t.kind = .integer → ∃ n : Nat, t.literal = some (.integer n) ∧ n ≤ maxInteger
  real : t.kind = .real → ∃ rank, t.literal = some (.real (.finite false rank))
  string : t.kind = .string → ∃ text, t.literal = some (.string text)

variable {r : Reader} {c : LexemeClass} {t : Token} {tokens before : List Token}
  {piece : List Char} {source file : String}

/-- The kinds of token that stand for an operand. -/
def TokenKind.operands : List TokenKind := [.identifier, .integer, .real, .string]

namespace Token

/-- Any other kind goes with anything. -/
theorem lexical_of_notMem (h : t.kind ∉ TokenKind.operands) : t.Lexical := by
  simp only [TokenKind.operands, List.mem_cons, List.not_mem_nil, or_false, not_or] at h
  obtain ⟨hname, hinteger, hreal, hstring⟩ := h
  exact ⟨fun hk => absurd hk hname, fun hk => absurd hk hinteger, fun hk => absurd hk hreal,
    fun hk => absurd hk hstring⟩

theorem lexical_of_name (hk : t.kind = .identifier) (h : IsName t.name) : t.Lexical :=
  ⟨fun _ => h, by simp [hk], by simp [hk], by simp [hk]⟩

theorem lexical_of_integer {n : Nat} (hk : t.kind = .integer)
    (hl : t.literal = some (.integer n)) (hn : n ≤ maxInteger) : t.Lexical :=
  ⟨by simp [hk], fun _ => ⟨n, hl, hn⟩, by simp [hk], by simp [hk]⟩

theorem lexical_of_real {rank : Fin Binary64.rankCount} (hk : t.kind = .real)
    (hl : t.literal = some (.real (.finite false rank))) : t.Lexical :=
  ⟨by simp [hk], by simp [hk], fun _ => ⟨rank, hl⟩, by simp [hk]⟩

theorem lexical_of_string {text : String} (hk : t.kind = .string)
    (hl : t.literal = some (.string text)) : t.Lexical :=
  ⟨by simp [hk], by simp [hk], by simp [hk], fun _ => ⟨text, hl⟩⟩

end Token

/-! ## Words -/

theorem ofReserved?_notMem_operands {kind : TokenKind} {word : String}
    (h : TokenKind.ofReserved? word = some kind) : kind ∉ TokenKind.operands := by
  have hall : ∀ s ∈ TokenKind.reservedWords, s.2 ∉ TokenKind.operands := by decide
  obtain ⟨before, behind, hwords, -⟩ := List.lookup_eq_some_iff.1 h
  exact hall _ (hwords ▸ List.mem_append_right _ List.mem_cons_self)

/-- In small letters every character of a word is one of a name. -/
theorem toLower_of_isWordRest {d : Char} (h : isWordRest d = true) :
    d.toLower.isLower = true ∨ d.toLower.isDigit = true ∨ d.toLower = '_' := by
  simp only [isWordRest, Char.isAlphanum, Bool.or_eq_true, beq_iff_eq] at h
  rcases h with (h | h) | rfl
  · exact .inl (by rwa [Char.isLower_toLower_eq_isAlpha])
  · have hnat := toNat_of_isDigit h
    rw [Unicode.toLower_eq_self (by omega)]
    exact .inr (.inl h)
  · exact .inr (.inr (by decide))

/-- In small letters a word that is not reserved is a name. -/
theorem isName_of_mem_word (h : piece ∈ word.language) (hk : wordKind piece = .identifier) :
    IsName (Unicode.lowercase (String.ofList piece)) := by
  have hlower : Unicode.lowercase (String.ofList piece) = String.ofList (piece.map Char.toLower) := by
    rw [Unicode.lowercase_of_ascii (by simpa using ascii_of_mem_word h), String.toList_ofList]
  rw [hlower]
  refine ⟨?_, ?_⟩
  · obtain ⟨d, w, hd, hw, rfl⟩ := mem_ofClass_mul.1 h
    refine ⟨d.toLower, w.map Char.toLower, by simp, ?_, ?_⟩
    · rwa [Char.isLower_toLower_eq_isAlpha]
    · exact List.forall_mem_map.2 fun x hx => toLower_of_isWordRest (mem_kstar_ofClass.1 hw x hx)
  · cases hreserved : TokenKind.ofReserved? (String.ofList (piece.map Char.toLower)) with
    | none => rfl
    | some kind =>
      rw [wordKind, hreserved, Option.getD_some] at hk
      exact absurd (by simp [hk, TokenKind.operands]) (ofReserved?_notMem_operands hreserved)

theorem lexical_word (h : piece ∈ word.language) :
    (r.token (wordKind piece) piece none).Lexical := by
  cases hreserved : TokenKind.ofReserved? (String.ofList (piece.map Char.toLower)) with
  | some kind =>
    have hk : wordKind piece = kind := by rw [wordKind, hreserved, Option.getD_some]
    exact Token.lexical_of_notMem (hk ▸ ofReserved?_notMem_operands hreserved)
  | none =>
    have hk : wordKind piece = .identifier := by rw [wordKind, hreserved, Option.getD_none]
    rw [hk]
    exact Token.lexical_of_name rfl (isName_of_mem_word h hk)

/-! ## Constants -/

/-- A real that is read is finite, and it has no sign. -/
theorem exists_rank {x : Binary64} (h : realValue? piece = some x) :
    ∃ rank, x = .finite false rank := by
  obtain ⟨hx, hfinite⟩ := Option.filter_eq_some_iff.1 h
  obtain ⟨d, -, rfl⟩ := Option.map_eq_some_iff.1 hx
  rw [Decimal.toBinary64, Binary64.ofRank] at hfinite ⊢
  split at hfinite
  · next hlt => exact ⟨_, dif_pos hlt⟩
  · cases hfinite

/-! ## All tokens -/

theorem LexemeClass.lexical_of_token? (hc : c ∈ all) (hpiece : piece ∈ c.language)
    (h : c.token? r piece = .ok (some t)) : t.Lexical := by
  cases c with
  | blank | comment => cases h
  | word =>
    obtain rfl := Option.some.inj (Except.ok.inj h)
    exact lexical_word hpiece
  | real =>
    rw [token?] at h
    split at h
    · next x hx =>
      obtain rfl := Option.some.inj (Except.ok.inj h)
      obtain ⟨rank, rfl⟩ := exists_rank hx
      exact Token.lexical_of_real rfl rfl
    · cases h
  | integer =>
    simp only [token?] at h
    split at h
    · next hmax =>
      obtain rfl := Option.some.inj (Except.ok.inj h)
      exact Token.lexical_of_integer rfl rfl hmax
    · cases h
  | string =>
    obtain rfl := Option.some.inj (Except.ok.inj h)
    exact Token.lexical_of_string rfl rfl
  | symbol spelling kind =>
    have hsymbols : ∀ s ∈ TokenKind.symbols, s.2 ∉ TokenKind.operands := by decide
    obtain rfl := Option.some.inj (Except.ok.inj h)
    exact Token.lexical_of_notMem (hsymbols _ (mem_all_symbol.1 hc))

theorem lexical_scan (hbefore : ∀ t ∈ before, t.Lexical) (h : r.scan before = .ok tokens) :
    ∀ t ∈ tokens, t.Lexical := by
  fun_induction Reader.scan r before with
  | case1 r before c piece rest hnext htoken ih => exact ih hbefore h
  | case2 r before c piece rest hnext t htoken ih =>
    obtain ⟨hc, hsplit⟩ := next?_eq_some hnext
    have ht := lexical_of_token? hc ((takesLongest_split? c).mem hsplit) htoken
    exact ih (List.forall_mem_cons.2 ⟨ht, hbefore⟩) h
  | case3 => cases h
  | case4 r before hnext hend =>
    obtain rfl := Except.ok.inj h
    have hend : TokenKind.endOfText ∉ TokenKind.operands := by decide
    have hlast : r.endToken.Lexical := Token.lexical_of_notMem hend
    exact fun t ht => List.forall_mem_cons.2 ⟨hlast, hbefore⟩ t (List.mem_reverse.1 ht)
  | case5 => cases h

/-- **Tokens carry what goes with their kinds**. -/
theorem lexical_of_tokenize (h : tokenize source file = .ok tokens) : ∀ t ∈ tokens, t.Lexical :=
  lexical_scan (List.forall_mem_nil _) h

end PascalBlock
