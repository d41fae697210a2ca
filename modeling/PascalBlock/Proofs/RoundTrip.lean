import PascalBlock.Proofs.Node.Source
import PascalBlock.Proofs.Node.WellFormed
import PascalBlock.Proofs.Parser.Acceptance
import PascalBlock.Proofs.Token.Lexing
import PascalBlock.Proofs.Unicode.Lowercase

/-!
# Reading undoes writing

The source text of a well-formed tree is scanned as tokens that the grammar derives with the outline
of the tree (`lexes_expression`, `lexes_statement`). A parse accepts what is derived, so it builds a
tree of this outline again.
-/

namespace PascalBlock

open Text Grammar Node LexemeClass

/-! ## Texts and their tokens -/

/-- In front of `rest` the text is scanned as tokens of which `P` holds. -/
def Lexes (text rest : List Char) (P : List Token → Prop) : Prop :=
  ∀ r : Reader, r.rest = text ++ rest →
    ∃ (ts : List Token) (r' : Reader), r'.rest = rest ∧ r.Scans ts r' ∧ P ts

variable {xs ys ws rest : List Char} {P Q : List Token → Prop}

theorem lexes_nil (h : P []) : Lexes [] rest P := fun r hr => ⟨[], r, hr, .refl r, h⟩

theorem Lexes.mono (h : Lexes xs rest P) (hpq : ∀ ts, P ts → Q ts) : Lexes xs rest Q := by
  intro r hr
  obtain ⟨ts, r', hr', hs, hp⟩ := h r hr
  exact ⟨ts, r', hr', hs, hpq ts hp⟩

/-- One text behind the other. -/
theorem Lexes.append (h : Lexes xs (ys ++ rest) P)
    (h' : ∀ ts, P ts → Lexes ys rest fun us => Q (ts ++ us)) : Lexes (xs ++ ys) rest Q := by
  intro r hr
  rw [List.append_assoc] at hr
  obtain ⟨ts, r', hr', hs, hp⟩ := h r hr
  obtain ⟨us, r'', hr'', hs', hq⟩ := h' ts hp r' hr'
  exact ⟨ts ++ us, r'', hr'', hs.trans hs', hq⟩

/-- Blanks in front do not count. -/
theorem Lexes.blanks (hws : ∀ c ∈ ws, Unicode.isWhiteSpace c = true) (h : Lexes ys rest P) :
    Lexes (ws ++ ys) rest P := by
  intro r hr
  rw [List.append_assoc] at hr
  obtain ⟨ts, r', hr', hs, hp⟩ := h (r.past ws (ys ++ rest)) rfl
  exact ⟨ts, r', hr', (scans_blanks hr hws).trans hs, hp⟩

theorem Lexes.blank {c : Char} (hc : Unicode.isWhiteSpace c = true) (h : Lexes ys rest P) :
    Lexes (c :: ys) rest P :=
  Lexes.blanks (List.forall_mem_singleton.2 hc) h

/-- A token of the kind, with the spelling and the value. -/
structure IsToken (kind : TokenKind) (piece : List Char) (literal : Option Literal) (t : Token) :
    Prop where
  kind : t.kind = kind
  text : t.text = String.ofList piece
  literal : t.literal = literal

/-- A token in front. -/
theorem LexesAs.cons {kind : TokenKind} {literal : Option Literal}
    (h : LexesAs xs (ys ++ rest) kind literal)
    (h' : ∀ t, IsToken kind xs literal t → Lexes ys rest fun us => Q (t :: us)) :
    Lexes (xs ++ ys) rest Q := by
  intro r hr
  rw [List.append_assoc] at hr
  obtain ⟨t, r', hr', hs, hk, ht, hl⟩ := h r hr
  obtain ⟨us, r'', hr'', hs', hq⟩ := h' t ⟨hk, ht, hl⟩ r' hr'
  exact ⟨t :: us, r'', hr'', hs.trans hs', hq⟩

theorem LexesAs.lexes {kind : TokenKind} {literal : Option Literal}
    (h : LexesAs xs rest kind literal)
    (h' : ∀ t, IsToken kind xs literal t → Q [t]) : Lexes xs rest Q := by
  have hcons : Lexes (xs ++ []) rest Q := LexesAs.cons h fun t ht => lexes_nil (h' t ht)
  rwa [List.append_nil] at hcons

/-! ## Names -/

/-- A character that goes on with an operand. -/
def goesOn (c : Char) : Bool := isWordRest c || c == '.' || c == '\''

theorem stops_wordRest (h : Stops goesOn rest) : Stops isWordRest rest :=
  h.of_imp fun c hc => by simp [goesOn, hc]

theorem stops_numberRest (h : Stops goesOn rest) : Stops isNumberRest rest := by
  refine h.of_imp fun c hc => ?_
  simp only [isNumberRest, goesOn, isWordRest, Char.isAlphanum, Bool.or_eq_true, beq_iff_eq] at hc ⊢
  rcases hc with ((hc | hc) | hc) | hc
  · simp [hc]
  · simp [hc]
  · subst hc; decide
  · subst hc; decide

theorem stops_quote (h : Stops goesOn rest) : Stops (· == '\'') rest :=
  h.of_imp fun c hc => by simp [goesOn, eq_of_beq hc]

theorem toNat_of_isLower {c : Char} (h : c.isLower = true) : 97 ≤ c.toNat ∧ c.toNat ≤ 122 := by
  simpa [Char.isLower, UInt32.le_iff_toNat_le] using h

/-- The characters of a name are small already. -/
theorem small_of_nameChar {c : Char} (h : c.isLower = true ∨ c.isDigit = true ∨ c = '_') :
    c.toNat < 128 ∧ ¬ (65 ≤ c.toNat ∧ c.toNat ≤ 90) := by
  rcases h with h | h | rfl
  · have := toNat_of_isLower h
    omega
  · have := toNat_of_isDigit h
    omega
  · decide

theorem toLower_of_nameChar {c : Char} (h : c.isLower = true ∨ c.isDigit = true ∨ c = '_') :
    c.toLower = c := Unicode.toLower_eq_self (small_of_nameChar h).2

theorem IsName.chars {name : String} (h : IsName name) :
    ∀ c ∈ name.toList, c.isLower = true ∨ c.isDigit = true ∨ c = '_' := by
  obtain ⟨⟨c, cs, hcs, hc, hall⟩, -⟩ := h
  rw [hcs]
  exact List.forall_mem_cons.2 ⟨.inl hc, hall⟩

theorem IsName.lowercase {name : String} (h : IsName name) : Unicode.lowercase name = name :=
  Unicode.lowercase_eq_self fun c hc => small_of_nameChar (h.chars c hc)

theorem IsName.wordKind {name : String} (h : IsName name) :
    wordKind name.toList = .identifier := by
  have hmap : name.toList.map Char.toLower = name.toList :=
    (List.map_congr_left fun c hc => toLower_of_nameChar (h.chars c hc)).trans (List.map_id _)
  rw [PascalBlock.wordKind, hmap, String.ofList_toList, h.2]
  rfl

/-- A name is scanned as itself. -/
theorem IsName.lexesAs {name : String} (h : IsName name) (hr : Stops isWordRest rest) :
    LexesAs name.toList rest .identifier none := by
  have hkind := h.wordKind
  obtain ⟨⟨c, cs, hcs, hc, hall⟩, -⟩ := h
  rw [hcs] at hkind ⊢
  rw [← hkind]
  refine lexesAs_word (by simp [isLetter, Char.isAlpha, hc]) (List.all_eq_true.2 fun d hd => ?_) hr
  rcases hall d hd with hd | hd | rfl
  · simp [isWordRest, Char.isAlphanum, Char.isAlpha, hd]
  · simp [isWordRest, Char.isAlphanum, hd]
  · decide

/-! ## Expressions -/

/-- The tokens of an operand are a factor. -/
theorem opens_leaf {n : Node} {t : Token} (leaf : Leaf) (hn : n.asLeaf? = some leaf)
    (hk : n.kind = leaf.kind) (hc : n.children = []) (ht : t.asLeaf? = some leaf) :
    Opens .factor 0 [t] n.outline := by
  rw [outline_eq, hn, hk, hc]
  exact .operand ht

/-- A constant is scanned as a factor. -/
theorem lexes_constant {kind : NodeKind} {token : TokenKind} {literal : Literal} {a : Attributes}
    (ha : a.value = some (.literal literal)) (hk : Parser.constantKind? token = some kind)
    (h : LexesAs xs rest token (some literal)) :
    Lexes xs rest fun ts => Opens .factor 0 ts (mk kind a []).outline := by
  have hnode : (mk kind a []).asLeaf? = some (.constant kind (some literal)) := by
    cases token <;> cases hk <;> simp [asLeaf?, literal?, ha]
  refine h.lexes fun t ht => opens_leaf (.constant kind (some literal)) hnode rfl rfl ?_
  cases token <;> cases hk <;> simp [Token.asLeaf?, ht.kind, ht.literal]

/-- The text of a real is a literal that has its value. -/
theorem exists_literal (rank : Fin Binary64.rankCount) :
    ∃ l : RealLiteral, (Binary64.finite false rank).text.toList = l.chars ∧
      realValue? l.chars = some (.finite false rank) := by
  obtain ⟨l, hl, hv⟩ := Binary64.magnitudeText_eq rank.isLt
  refine ⟨l, ?_, ?_⟩
  · simp [Binary64.text, hl]
  · simp [realValue?, l.read, Decimal.toBinary64, hv, Binary64.ofRank, Binary64.isFinite]

theorem stops_goesOn {c : Char} {cs : List Char} (h : c ∈ [' ', ')', ';', '\n']) :
    Stops goesOn (c :: cs) := by
  rw [stops_cons]
  simp only [List.mem_cons, List.not_mem_nil, or_false] at h
  rcases h with rfl | rfl | rfl | rfl <;> rfl

/-- An expression in parentheses is a factor, one level further in. -/
theorem lexes_parentheses {n : Nat} {o : Outline}
    (h : Lexes xs (')' :: rest) fun ts => Opens .expression n ts o) :
    Lexes ('(' :: (xs ++ [')'])) rest fun ts => Opens .factor (n + 1) ts o := by
  have hopen : LexesAs ['('] (xs ++ [')'] ++ rest) .leftParen none := lexesAs_symbol rfl
  have hclose : LexesAs [')'] rest .rightParen none := lexesAs_symbol rfl
  refine hopen.cons fun l hl => ?_
  rw [← List.singleton_append] at h
  exact h.append fun ts hts => hclose.lexes fun r hr => .parentheses hl.kind hts hr.kind

/-- Operators between blanks are scanned as they are written. -/
theorem lexesAs_operator {prec : Precedence} {token : TokenKind} {kind : NodeKind} {symbol : String}
    (h : Operator prec token kind) (hs : kind.binarySymbol? = some symbol) :
    LexesAs symbol.toList (' ' :: rest) token none := by
  have hblank : Stops isWordRest (' ' :: rest) := stops_cons.2 rfl
  cases h <;> cases hs <;>
    first
      | exact lexesAs_symbol rfl
      | exact lexesAs_word rfl rfl hblank

/-- **An expression is scanned as a factor** that stands for it. -/
theorem lexes_expression {n : Node} (h : IsExpression n) :
    ∀ {rest}, Stops goesOn rest →
      Lexes n.expressionText.toList rest fun ts => Opens .factor n.opened ts n.outline := by
  induction h with
  | @name a ref ha hn =>
    intro rest hr
    rw [expressionText_variable a ha]
    refine (hn.lexesAs (stops_wordRest hr)).lexes fun t ht => ?_
    refine opens_leaf (.variable (some ref.name)) ?_ rfl rfl ?_
    · simp [asLeaf?, entry?, ha]
    · simp [Token.asLeaf?, ht.kind, Token.name, ht.text, hn.lowercase]
  | @integer a value ha h0 hm =>
    intro rest hr
    obtain ⟨m, rfl⟩ := Int.eq_ofNat_of_zero_le h0
    have htext : (Literal.integer m).text.toList = Nat.toDigits 10 m := by
      rw [Literal.text, toList_toString_int, if_neg (Int.not_lt.2 h0)]
      rfl
    have hmax : m ≤ maxInteger := by
      have hpow : maxInteger = 2 ^ 63 - 1 := rfl
      omega
    rw [expressionText_integer a ha, htext]
    exact lexes_constant ha rfl (lexesAs_integer hmax (stops_numberRest hr))
  | @real a rank ha =>
    intro rest hr
    obtain ⟨l, hl, hv⟩ := exists_literal rank
    rw [expressionText_real a ha, Literal.text, hl]
    exact lexes_constant ha rfl (lexesAs_real hv (stops_numberRest hr))
  | @string a text ha =>
    intro rest hr
    have htext : (quoteString text).toList = '\'' :: (double text.toList ++ ['\'']) := by
      simp [quoteString, double]
    rw [expressionText_string a ha, htext]
    have hstring := lexesAs_string text.toList (stops_quote hr)
    rw [String.ofList_toList] at hstring
    exact lexes_constant ha rfl hstring
  | @negate a n _ ih =>
    intro rest _
    have hopened : (mk .negate a [n]).opened = n.opened + 1 := by
      simp [opened, openedAll, NodeKind.levels, Nat.add_comm]
    have hminus : LexesAs ['-'] (n.expressionText.toList ++ ')' :: rest) .minus none :=
      lexesAs_symbol rfl
    have hinner : Lexes (['-'] ++ n.expressionText.toList) (')' :: rest)
        fun ts => Opens .expression n.opened ts (.node .negate [n.outline]) := by
      refine hminus.cons fun t ht => (ih (stops_goesOn (by simp))).mono fun ts hts => ?_
      exact .simple (.minus ht.kind (.factor hts))
    rw [toList_negate, hopened, outline_mk rfl]
    exact lexes_parentheses hinner
  | @not a n _ ih =>
    intro rest _
    have hopened : (mk .not a [n]).opened = n.opened + 1 + 1 := by
      simp only [opened, openedAll, NodeKind.levels]
      omega
    have hnot : LexesAs ['N', 'O', 'T'] (' ' :: n.expressionText.toList ++ ')' :: rest)
        .notWord none := lexesAs_word rfl rfl (stops_cons.2 rfl)
    rw [toList_not, hopened, outline_mk rfl]
    have htext : ['N', 'O', 'T'] ++ ' ' :: (n.expressionText.toList ++ [')']) =
        ['N', 'O', 'T'] ++ ' ' :: n.expressionText.toList ++ [')'] := by simp
    rw [htext]
    refine lexes_parentheses (hnot.cons fun t ht => .blank rfl ?_)
    refine (ih (stops_goesOn (by simp))).mono fun ts hts => ?_
    exact .of_factor (.negation ht.kind hts)
  | @binary prec token kind a left right hk _ _ ihl ihr =>
    intro rest _
    obtain ⟨symbol, hs⟩ := exists_binarySymbol? hk
    have hopened : (mk kind a [left, right]).opened = max left.opened right.opened + 1 := by
      have hlevels : kind.levels = 1 := by cases hk <;> rfl
      simp [opened, openedAll, hlevels, Nat.add_comm]
    have htext : left.expressionText.toList ++ ' ' :: (symbol.toList ++ ' ' ::
        (right.expressionText.toList ++ [')'])) = left.expressionText.toList ++ ' ' ::
          (symbol.toList ++ ' ' :: right.expressionText.toList) ++ [')'] := by simp
    have houtline : (mk kind a [left, right]).outline =
        .node kind [left.outline, right.outline] := by
      cases hk <;> exact outline_mk rfl
    rw [toList_binary hk hs, htext, hopened, houtline]
    refine lexes_parentheses ((ihl (stops_goesOn (by simp))).append fun ts hts => ?_)
    refine .blank rfl ?_
    refine (lexesAs_operator hk hs).cons fun t ht => ?_
    refine .blank rfl ?_
    refine (ihr (stops_goesOn (by simp))).mono fun us hus => ?_
    have hop : Operator prec t.kind kind := ht.kind ▸ hk
    exact .binary hop hts hus

/-! ## Statements -/

/-- What is written for a statement is scanned as a statement that stands for it. -/
def WrittenAsStatement (n : Node) : Prop :=
  ∀ (depth : Nat) {rest : List Char}, Stops goesOn rest →
    Lexes (statementText depth n).toList rest
      fun ts => OpensBlock .statement n.opened ts [n.outline]

/-- Only an empty statement takes no tokens. -/
theorem eq_noOp_of_opensBlock {levels : Nat} {o : Outline}
    (h : OpensBlock .statement levels [] [o]) : o = .node .noOp [] := by
  cases h with
  | block h => cases h
  | empty => rfl

theorem ne_nil_of_opensBlock {levels : Nat} {ts : List Token} {n : Node} (hn : n.kind ≠ .noOp)
    (h : OpensBlock .statement levels ts [n.outline]) : ts ≠ [] := by
  rintro rfl
  have ho := eq_noOp_of_opensBlock h
  rw [outline_eq] at ho
  exact hn (Outline.mk.inj ho).1

theorem blank_indent (depth : Nat) :
    ∀ c ∈ (indent depth).toList, Unicode.isWhiteSpace c = true := by
  rw [toList_indent]
  intro c hc
  rw [List.eq_of_mem_replicate hc]
  decide

/-- **The lines of a block are scanned as its statements**. -/
theorem lexes_lines {ns : List Node} (h : ∀ n ∈ ns, WrittenAsStatement n) (depth : Nat) :
    ∀ rest : List Char, Lexes (statementLines depth ns).toList rest
      fun ts => OpensBlock .statements (openedAll ns) ts (ns.map outline) := by
  induction ns with
  | nil => exact fun _ => lexes_nil .lastEmpty
  | cons n ns ih =>
    intro rest
    rw [List.forall_mem_cons] at h
    have hlines := ih h.2 rest
    rw [toList_lines_cons]
    refine .blanks (blank_indent depth) ?_
    rw [lineEnd]
    by_cases hend : (!ns.isEmpty || n.kind == .noOp) = true
    · rw [if_pos hend]
      have hsemicolon : LexesAs [';'] ('\n' :: (statementLines depth ns).toList ++ rest)
          .semicolon none := lexesAs_symbol rfl
      refine (h.1 depth (stops_goesOn (by simp))).append fun ts hts => ?_
      refine hsemicolon.cons fun s hs => .blank rfl (hlines.mono fun us hus => ?_)
      exact .next hts hs.kind hus
    · rw [if_neg hend]
      simp only [Bool.or_eq_true, Bool.not_eq_true', beq_iff_eq, not_or, Bool.not_eq_false,
        List.isEmpty_iff] at hend
      obtain ⟨rfl, hk⟩ := hend
      refine (h.1 depth (stops_goesOn (by simp))).append fun ts hts => ?_
      refine .blank rfl (lexes_nil ?_)
      rw [List.append_nil]
      rw [openedAll, openedAll, Nat.max_zero]
      exact .last hts (ne_nil_of_opensBlock hk hts)

/-- A block is scanned as a compound statement. -/
theorem lexes_compound {ns : List Node} (h : ∀ n ∈ ns, WrittenAsStatement n) (a : Attributes)
    (depth : Nat) (hr : Stops isWordRest rest) :
    Lexes (statementText depth (mk .compound a ns)).toList rest fun ts =>
      OpensBlock .compound (mk .compound a ns).opened ts [(mk .compound a ns).outline] := by
  have hopened : (mk .compound a ns).opened = openedAll ns + 1 := by
    rw [opened, Nat.add_comm]
    rfl
  have hbegin (cs : List Char) : LexesAs ['B', 'E', 'G', 'I', 'N'] ('\n' :: cs) .beginWord none :=
    lexesAs_word rfl rfl (stops_cons.2 rfl)
  have hend : LexesAs ['E', 'N', 'D'] rest .endWord none := lexesAs_word rfl rfl hr
  rw [toList_compound, hopened, outline_mk rfl]
  refine (hbegin _).cons fun b hb => ?_
  refine .blank rfl ((lexes_lines h (depth + 1) _).append fun ts hts => ?_)
  exact .blanks (blank_indent depth) (hend.lexes fun e he => .compound hb.kind hts he.kind)

/-- **A statement is scanned as a statement** that stands for it. -/
theorem lexes_statement {n : Node} (h : IsStatement n) : WrittenAsStatement n := by
  induction h with
  | @noOp a =>
    intro depth rest _
    rw [toList_noOp, outline_mk rfl]
    exact lexes_nil .empty
  | @assign a target value ht hk hv =>
    intro depth rest hr
    cases ht with
    | @name a' ref ha hn =>
      have hname (cs : List Char) : LexesAs ref.name.toList (' ' :: cs) .identifier none :=
        hn.lexesAs (stops_cons.2 rfl)
      have hbecomes (cs : List Char) : LexesAs [':', '='] (' ' :: cs) .becomes none :=
        lexesAs_symbol rfl
      have htarget : (mk .variable a' []).outline = .operand (.variable (some ref.name)) := by
        simp [outline_eq, asLeaf?, entry?, ha, Outline.operand, Leaf.kind]
      have hopened : (mk .assign a [mk .variable a' [], value]).opened = value.opened := by
        simp [opened, openedAll, NodeKind.levels]
      rw [toList_assign, expressionText_variable a' ha, hopened, outline_mk rfl, List.map_cons,
        htarget]
      refine (hname _).cons fun t ht => ?_
      change Lexes (' ' :: ([':', '='] ++ ' ' :: value.expressionText.toList)) rest _
      refine .blank rfl ?_
      refine (hbecomes _).cons fun s hs => ?_
      refine .blank rfl ?_
      refine (lexes_expression hv hr).mono fun us hus => ?_
      have htname : t.name = ref.name := by
        rw [Token.name, ht.text, String.ofList_toList, hn.lowercase]
      rw [← htname]
      exact .assignment ht.kind hs.kind hus.of_factor
    | binary hk' =>
      cases hk
      cases hk'
    | _ => cases hk
  | @compound a ns _ ih =>
    intro depth rest hr
    exact (lexes_compound ih a depth (stops_wordRest hr)).mono fun ts hts => .block hts

/-! ## Programs -/

/-- A block with a period behind it is scanned as a program. -/
theorem lexes_block {root : Node} (h : IsStatement root) (hk : root.kind = .compound) :
    Lexes (root.source.toList ++ ['.']) [] fun ts =>
      OpensProgram root.opened ts root.outline := by
  cases h with
  | @compound a ns hns =>
    have hdot : LexesAs ['.'] [] .dot none := lexesAs_symbol rfl
    refine (lexes_compound (fun n hn => lexes_statement (hns n hn)) a 0
      (stops_cons.2 rfl)).append fun ts hts => hdot.lexes fun d hd => ?_
    exact .program hts hd.kind
  | _ => cases hk

theorem lexes_program {root : Node} (h : WellFormed root) :
    Lexes (root.source.toList ++ ['.']) [] fun ts =>
      DerivesProgram Parser.maxNesting ts root.outline :=
  (lexes_block h.statement h.compound).mono fun _ hts => hts.derives h.opened

/-- A text that is scanned to its end is tokenized, up to the token that marks the end. -/
theorem tokenize_of_lexes {text : List Char} (h : Lexes text [] P) (name : String) :
    ∃ ts last, tokenize (String.ofList text) name = .ok (ts ++ [last]) ∧ last.kind = .endOfText ∧
      P ts := by
  obtain ⟨ts, r, hr, hs, hp⟩ := h (.ofSource (String.ofList text) name) (by simp [Reader.ofSource])
  refine ⟨ts, r.endToken, ?_, rfl, hp⟩
  rw [tokenize, hs [], Reader.scan_end hr]
  simp

theorem ofTokens_ahead {ts : List Token} {last : Token} (h : last.kind = .endOfText)
    (file : String) : (Cursor.ofTokens (ts ++ [last]) file).ahead = ts := by
  rw [Cursor.ofTokens_concat ts h]

/-- **Reading undoes writing**. The source text of a well-formed tree, with a period behind it, is
tokenized; a parse of the tokens flags nothing but unknown names and builds a tree with the same
outline, and so with the same source text. -/
theorem source_reads_back {root : Node} (h : WellFormed root) (name file : String) :
    ∃ tokens, tokenize (root.source ++ ".") name = .ok tokens ∧
      Clean (parse tokens file).after.log.entries.toList ∧
      ∃ again, (parse tokens file).value = some again ∧ again.outline = root.outline ∧
        again.source = root.source := by
  obtain ⟨ts, last, hts, hlast, hd⟩ := tokenize_of_lexes (lexes_program h) name
  have htext : String.ofList (root.source.toList ++ ['.']) = root.source ++ "." := by
    rw [String.ofList_append, String.ofList_toList]
  have ha : (Cursor.ofTokens (ts ++ [last]) file).ahead = ts ++ [] := by
    rw [ofTokens_ahead hlast file, List.append_nil]
  obtain ⟨hc, -, hv⟩ := parse_of_derivesProgram (ts ++ [last]) file ha hd
  obtain ⟨again, hagain, ho⟩ := Option.map_eq_some_iff.1 hv
  exact ⟨ts ++ [last], htext ▸ hts, hc, again, hagain, ho, source_congr ho⟩

/-- The tree of `begin x := not (1.5 + 'it''s'); end.`, with an empty statement in the last
place. -/
def quotedSum : Node :=
  .mk .compound .empty [
    .mk .assign .empty [
      .mk .variable ⟨none, some (.entry ⟨"x", 0⟩), none⟩ [],
      .mk .not .empty [
        .mk .add .empty [
          .mk .realConstant ⟨none, none, some (.literal (.real
            (.finite false ⟨1023 * 2 ^ 52 + 2 ^ 51, by decide⟩)))⟩ [],
          .mk .stringConstant ⟨none, none, some (.literal (.string "it's"))⟩ []]]],
    .mk .noOp .empty []]

theorem wellFormed_quotedSum : WellFormed quotedSum := by
  have hname : IsName "x" := ⟨⟨'x', [], by decide, by decide, nofun⟩, by decide⟩
  refine ⟨.compound (List.forall_mem_cons.2 ⟨?_, List.forall_mem_singleton.2 .noOp⟩), rfl,
    by decide⟩
  exact .assign (.name rfl hname) rfl (.not (.binary .sum (.real rfl) (.string rfl)))

theorem quotedSum_reads_back :
    WellFormed quotedSum ∧ ∃ tokens, tokenize (quotedSum.source ++ ".") "" = .ok tokens ∧
      Clean (parse tokens "").after.log.entries.toList ∧
      ∃ again, (parse tokens "").value = some again ∧ again.outline = quotedSum.outline ∧
        again.source = quotedSum.source :=
  ⟨wellFormed_quotedSum, source_reads_back wellFormed_quotedSum "" ""⟩

end PascalBlock
