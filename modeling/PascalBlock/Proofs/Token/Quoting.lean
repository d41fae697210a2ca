import PascalBlock.Node.Source
import PascalBlock.Proofs.Token.Joining
import PascalBlock.Proofs.Token.Lexical

/-!
# Quoting and unquoting

A string is written between quotes, with every quote inside written twice (`Node.quoteString`), and
it is read by leaving out the outer quotes and one quote of every pair inside (`stringValue`). Main
result: the two undo each other. What is written is read as it was, whatever follows that is no
quote, and every string of a source is written again just as it stands there.
-/

namespace PascalBlock

open Text LexemeClass Node

variable {r : Reader} {c : LexemeClass} {t : Token} {tokens : List Token} {x : List Char}
  {source file s : String}

/-! ## What is written is read -/

theorem toList_quoteString (s : String) :
    (quoteString s).toList = '\'' :: (double s.toList ++ ['\'']) := by
  simp [quoteString, double]

theorem stops_of_head? {rest : List Char} (h : rest.head? ≠ some '\'') :
    Stops (· == '\'') rest := by
  cases rest with
  | nil => exact stops_nil _
  | cons a cs => exact stops_cons.2 (by simpa using h)

/-- What the scan does first where `quoted` stands in front of `rest`: it takes just that, as one
string token with the value `s`. -/
structure ReadsFirst (r : Reader) (quoted : String) (s : String) (rest : List Char) (t : Token) :
    Prop where
  next : next? r.rest = some (.string, quoted.toList, rest)
  token : LexemeClass.string.token? r quoted.toList = .ok (some t)
  kind : t.kind = .string
  text : t.text = quoted
  literal : t.literal = some (.string s)
  pushed : r.Scans [t] (r.past quoted.toList rest)

theorem readsFirst_quoteString (r : Reader) (s : String) {rest : List Char}
    (hr : r.rest = (quoteString s).toList ++ rest) (hrest : rest.head? ≠ some '\'') :
    ∃ t, ReadsFirst r (quoteString s) s rest t := by
  have hnext : next? r.rest = some (.string, (quoteString s).toList, rest) := by
    rw [hr, toList_quoteString]
    exact next?_string s.toList (stops_of_head? hrest)
  have htoken : LexemeClass.string.token? r (quoteString s).toList =
      .ok (some (r.token .string (quoteString s).toList (some (.string s)))) := by
    rw [token?, toList_quoteString, stringValue_double, String.ofList_toList]
  exact ⟨_, hnext, htoken, rfl, String.ofList_toList, rfl, Reader.scans_token hnext htoken⟩

/-! ## What is read is written -/

/-- The rest of a string doubles the quotes of some text. -/
theorem exists_double (hx : x ∈ stringTail.language) : ∃ cs, x = double cs ++ ['\''] := by
  refine stringTail_induction (P := fun x => ∃ cs, x = double cs ++ ['\'']) ?_ ?_ ?_ x hx
  · exact ⟨[], rfl⟩
  · rintro a _ ha ⟨cs, rfl⟩
    exact ⟨a :: cs, by rw [double_cons ha, List.cons_append]⟩
  · rintro _ ⟨cs, rfl⟩
    exact ⟨'\'' :: cs, by rw [double_quote, List.cons_append, List.cons_append]⟩

/-- A string lexeme is its value between quotes. -/
theorem quoteString_stringValue (hx : x ∈ LexemeClass.string.language) :
    quoteString (stringValue x) = String.ofList x := by
  obtain ⟨a, v, ha, hv, rfl⟩ := mem_ofClass_mul.1 hx
  obtain rfl : a = '\'' := eq_of_beq ha
  obtain ⟨cs, rfl⟩ := exists_double hv
  rw [stringValue_double, ← String.toList_inj, toList_quoteString, String.toList_ofList,
    String.toList_ofList]

/-- Only the class of strings makes string tokens. -/
theorem LexemeClass.eq_string_of_token? (hc : c ∈ all) (h : c.token? r x = .ok (some t))
    (hk : t.kind = .string) : c = .string := by
  cases c with
  | string => rfl
  | blank | comment => cases h
  | word =>
    obtain rfl := Option.some.inj (Except.ok.inj h)
    cases hreserved : TokenKind.ofReserved? (String.ofList (x.map Char.toLower)) with
    | none => simp [Reader.token, wordKind, hreserved] at hk
    | some kind =>
      have hother := ofReserved?_notMem_operands hreserved
      obtain rfl : kind = .string := by simpa [Reader.token, wordKind, hreserved] using hk
      exact absurd (by simp [TokenKind.operands]) hother
  | real =>
    rw [token?] at h
    split at h
    · obtain rfl := Option.some.inj (Except.ok.inj h)
      cases hk
    · cases h
  | integer =>
    simp only [token?] at h
    split at h
    · obtain rfl := Option.some.inj (Except.ok.inj h)
      cases hk
    · cases h
  | symbol spelling kind =>
    have hsymbols : ∀ s ∈ TokenKind.symbols, s.2 ≠ .string := by decide
    obtain rfl := Option.some.inj (Except.ok.inj h)
    exact absurd hk (hsymbols _ (mem_all_symbol.1 hc))

theorem quoteString_of_mem (h : tokenize source file = .ok tokens) (ht : t ∈ tokens)
    (hk : t.kind = .string) : ∃ s, t.literal = some (.string s) ∧ quoteString s = t.text := by
  obtain ⟨ts, r, walk, -, rfl⟩ := walk_of_tokenize h
  rcases List.mem_append.1 ht with ht | ht
  · obtain ⟨text, c, piece, rest, -, -, -, -, hnext, htoken, -⟩ := walk.exists_of_mem ht
    obtain ⟨hc, hsplit⟩ := next?_eq_some hnext
    obtain rfl := eq_string_of_token? hc htoken hk
    obtain rfl := Option.some.inj (Except.ok.inj htoken)
    exact ⟨_, rfl, quoteString_stringValue ((takesLongest_split? .string).mem hsplit)⟩
  · -- the mark at the end is no string
    rw [List.mem_singleton.1 ht] at hk
    cases hk

/-- **Quoting and unquoting undo each other**. A text that is written between quotes is taken in the
first step of a scan and read as it was, in front of anything but another quote; and the value of
every string of a source is written just as the string stands there. -/
theorem quotes_are_undone :
    (∀ (r : Reader) (s : String) (rest : List Char), r.rest = (quoteString s).toList ++ rest →
      rest.head? ≠ some '\'' → ∃ t, ReadsFirst r (quoteString s) s rest t) ∧
    ∀ (source file : String) (tokens : List Token), tokenize source file = .ok tokens →
      ∀ t ∈ tokens, t.kind = .string →
        ∃ s, t.literal = some (.string s) ∧ quoteString s = t.text :=
  ⟨fun r s _ hr hrest => readsFirst_quoteString r s hr hrest,
    fun _ _ _ h _ ht hk => quoteString_of_mem h ht hk⟩

/-- Quotes at both ends of a text and inside it, in front of more strings. -/
theorem outerQuotes_are_undone :
    (Reader.ofSource "'''a''''b''' '''c'''" "").rest =
        (quoteString "'a''b'").toList ++ " '''c'''".toList ∧
      " '''c'''".toList.head? ≠ some '\'' ∧
      (∃ t, ReadsFirst (.ofSource "'''a''''b''' '''c'''" "") (quoteString "'a''b'") "'a''b'"
        " '''c'''".toList t) ∧
      tokenize "'''a''''b''' '''c'''" "" =
        .ok [⟨.string, "'''a''''b'''", some (.string "'a''b'"), 1, ⟨"", 0⟩, ⟨"", 12⟩⟩,
          ⟨.string, "'''c'''", some (.string "'c'"), 1, ⟨"", 13⟩, ⟨"", 20⟩⟩, .endAt 1 ⟨"", 20⟩] ∧
      quoteString "'c'" = "'''c'''" := by
  have hrest : (Reader.ofSource "'''a''''b''' '''c'''" "").rest =
      (quoteString "'a''b'").toList ++ " '''c'''".toList := by decide +kernel
  have hhead : " '''c'''".toList.head? ≠ some '\'' := by decide +kernel
  have htokens : tokenize "'''a''''b''' '''c'''" "" =
      .ok [⟨.string, "'''a''''b'''", some (.string "'a''b'"), 1, ⟨"", 0⟩, ⟨"", 12⟩⟩,
        ⟨.string, "'''c'''", some (.string "'c'"), 1, ⟨"", 13⟩, ⟨"", 20⟩⟩,
        .endAt 1 ⟨"", 20⟩] := by cbv
  obtain ⟨s, hs, hquote⟩ := quotes_are_undone.2 _ _ _ htokens
    ⟨.string, "'''c'''", some (.string "'c'"), 1, ⟨"", 13⟩, ⟨"", 20⟩⟩ (by simp) rfl
  obtain rfl : "'c'" = s := by simpa using hs
  exact ⟨hrest, hhead, quotes_are_undone.1 _ _ _ hrest hhead, htokens, hquote⟩

end PascalBlock
