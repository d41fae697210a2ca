import PascalBlock.Proofs.Number.Written
import PascalBlock.Proofs.Text.Bytes
import PascalBlock.Token.Scan

/-!
# How pieces of a text are scanned

A scan goes on from one reader to the next (`Reader.Scans`), and such steps follow one another. For
every class there is a step that says which token a piece becomes, given what may follow it:
`LexesAs piece rest kind literal`. Blanks in front of anything are skipped (`scans_blanks`).
-/

namespace PascalBlock

open Text Splitter LexemeClass

/-! ## Steps of a scan -/

namespace Reader

variable {r r' r'' : Reader} {ts us : List Token} {c : LexemeClass} {piece rest : List Char}

/-- From `r` the scan comes to `r'` and has found the tokens `ts`. -/
def Scans (r : Reader) (ts : List Token) (r' : Reader) : Prop :=
  ∀ before, r.scan before = r'.scan (ts.reverse ++ before)

theorem Scans.refl (r : Reader) : r.Scans [] r := fun _ => rfl

theorem Scans.trans (h : r.Scans ts r') (h' : r'.Scans us r'') : r.Scans (ts ++ us) r'' := by
  intro before
  rw [h before, h', List.reverse_append, List.append_assoc]

theorem scan_eq (h : next? r.rest = some (c, piece, rest)) (before : List Token) :
    r.scan before =
      match c.token? r piece with
      | .ok none => (r.past piece rest).scan before
      | .ok (some t) => (r.past piece rest).scan (t :: before)
      | .error e => .error e := by
  rw [scan]
  split
  · next c' piece' rest' h' =>
    rw [h] at h'
    cases h'
    rfl
  · next h' =>
    rw [h] at h'
    cases h'

theorem scans_token {t : Token} (h : next? r.rest = some (c, piece, rest))
    (ht : c.token? r piece = .ok (some t)) : r.Scans [t] (r.past piece rest) := by
  intro before
  rw [scan_eq h, ht]
  rfl

theorem scans_nothing (h : next? r.rest = some (c, piece, rest))
    (ht : c.token? r piece = .ok none) : r.Scans [] (r.past piece rest) := by
  intro before
  rw [scan_eq h, ht]
  rfl

theorem past_nil (h : r.rest = rest) : r.past [] rest = r := by
  cases r
  cases h
  simp [past, byteLength, newlines]

theorem past_past (xs ys rest' : List Char) :
    (r.past xs rest').past ys rest = r.past (xs ++ ys) rest := by
  simp [past, byteLength_append, newlines, List.count_append, Nat.add_assoc, UInt32.ofNat_add,
    UInt32.add_assoc]

/-- The scan ends where nothing follows. -/
theorem scan_end (h : r.rest = []) (before : List Token) :
    r.scan before = .ok ((r.endToken :: before).reverse) := by
  have hnone : next? r.rest = none := by rw [h]; rfl
  rw [scan]
  split
  · next h' => rw [hnone] at h'; cases h'
  · rw [if_pos (by simp [atEnd, h])]

end Reader

/-! ## Blanks -/

theorem next?_blank {ws rest : List Char} (hne : ws ≠ [])
    (hws : ∀ c ∈ ws, Unicode.isWhiteSpace c = true) (hr : Stops Unicode.isWhiteSpace rest) :
    next? (ws ++ rest) = some (.blank, ws, rest) := by
  have hblank : blank.split? (ws ++ rest) = some (ws, rest) := many1_append hne hws hr
  simp [next?, all, hblank]

/-- Blanks up to something else are skipped at once. -/
theorem scans_all_blanks {r : Reader} (ws rest : List Char) (h : r.rest = ws ++ rest)
    (hws : ∀ c ∈ ws, Unicode.isWhiteSpace c = true) (hr : Stops Unicode.isWhiteSpace rest) :
    r.Scans [] (r.past ws rest) := by
  by_cases hne : ws = []
  · subst hne
    rw [List.nil_append] at h
    rw [Reader.past_nil h]
    exact .refl r
  · exact Reader.scans_nothing (c := .blank) (h ▸ next?_blank hne hws hr) rfl

/-- Blanks in front of anything are skipped, though perhaps together with others. -/
theorem scans_blanks {r : Reader} {ws rest : List Char} (h : r.rest = ws ++ rest)
    (hws : ∀ c ∈ ws, Unicode.isWhiteSpace c = true) : r.Scans [] (r.past ws rest) := by
  -- both readers come to the end of the blanks
  have hmore : ∀ c ∈ rest.takeWhile Unicode.isWhiteSpace, Unicode.isWhiteSpace c = true :=
    List.all_eq_true.1 List.all_takeWhile
  have hstops := stops_dropWhile Unicode.isWhiteSpace rest
  have hsplit : rest = rest.takeWhile Unicode.isWhiteSpace ++ rest.dropWhile Unicode.isWhiteSpace :=
    List.takeWhile_append_dropWhile.symm
  have hall := scans_all_blanks (r := r) (ws ++ rest.takeWhile Unicode.isWhiteSpace) _
    (by rw [h, List.append_assoc, ← hsplit]) (List.forall_mem_append.2 ⟨hws, hmore⟩) hstops
  have hthen := scans_all_blanks (r := r.past ws rest) _ _ hsplit hmore hstops
  rw [Reader.past_past] at hthen
  intro before
  exact (hall before).trans (hthen before).symm

/-! ## Characters -/

theorem toNat_of_isDigit {c : Char} (h : c.isDigit = true) : 48 ≤ c.toNat ∧ c.toNat ≤ 57 := by
  simpa [Char.isDigit, UInt32.le_iff_toNat_le] using h

theorem toNat_of_isAlpha {c : Char} (h : c.isAlpha = true) :
    65 ≤ c.toNat ∧ c.toNat ≤ 90 ∨ 97 ≤ c.toNat ∧ c.toNat ≤ 122 := by
  simpa [Char.isAlpha, Char.isUpper, Char.isLower, UInt32.le_iff_toNat_le] using h

theorem isAlpha_of_isDigit {c : Char} (h : c.isDigit = true) : c.isAlpha = false := by
  have hd := toNat_of_isDigit h
  refine Bool.eq_false_iff.2 fun ha => ?_
  have := toNat_of_isAlpha ha
  omega

theorem isWhiteSpace_of_graphic {c : Char} (h : 33 ≤ c.toNat) (h' : c.toNat ≤ 126) :
    Unicode.isWhiteSpace c = false := by
  simp only [Unicode.isWhiteSpace, Unicode.whiteSpace, Unicode.Ranges.contains]
  grind

/-! ## Tokens -/

/-- In front of `rest` the piece is scanned as one token of this kind and with this value. -/
def LexesAs (piece rest : List Char) (kind : TokenKind) (literal : Option Literal) : Prop :=
  ∀ r : Reader, r.rest = piece ++ rest → ∃ (t : Token) (r' : Reader), r'.rest = rest ∧
    r.Scans [t] r' ∧ t.kind = kind ∧ t.text = String.ofList piece ∧ t.literal = literal

variable {c : LexemeClass} {piece rest : List Char} {kind : TokenKind} {literal : Option Literal}

theorem lexesAs_of_next? (h : next? (piece ++ rest) = some (c, piece, rest))
    (ht : ∀ r : Reader, c.token? r piece = .ok (some (r.token kind piece literal))) :
    LexesAs piece rest kind literal := by
  intro r hr
  exact ⟨r.token kind piece literal, r.past piece rest, rfl,
    Reader.scans_token (hr ▸ h) (ht r), rfl, rfl, rfl⟩

theorem lexesAs_symbol {spelling : String}
    (h : next? (piece ++ rest) = some (.symbol spelling kind, piece, rest)) :
    LexesAs piece rest kind none := lexesAs_of_next? h fun _ => rfl

/-- What is no blank and opens no comment. -/
theorem next?_of_graphic {x : Char} (xs : List Char) (hx : 33 ≤ x.toNat) (hx' : x.toNat ≤ 122) :
    blank.split? (x :: xs) = none ∧ comment.split? (x :: xs) = none := by
  refine ⟨many1_eq_none (stops_cons.2 (isWhiteSpace_of_graphic hx (by omega))), ?_⟩
  refine andThen_eq_none (one_eq_none (stops_cons.2 ?_))
  refine Bool.eq_false_iff.2 fun h => ?_
  rw [beq_iff_eq] at h
  subst h
  simp at hx'

/-- A word goes as far as its characters go. -/
theorem lexesAs_word {x : Char} {xs : List Char} (hx : isLetter x = true)
    (hxs : xs.all isWordRest = true) (hr : Stops isWordRest rest) :
    LexesAs (x :: xs) rest (wordKind (x :: xs)) none := by
  have hnat := toNat_of_isAlpha hx
  obtain ⟨hb, hc⟩ := next?_of_graphic (x := x) (xs ++ rest) (by omega) (by omega)
  have hword : word.split? (x :: (xs ++ rest)) = some (x :: xs, rest) :=
    andThen_eq (one_cons hx) (many_append (List.all_eq_true.1 hxs) hr)
  refine lexesAs_of_next? (c := .word) ?_ fun _ => rfl
  simp [next?, all, hb, hc, hword]

/-! ## Numbers -/

/-- Digits begin no word. -/
theorem split?_digits {x : Char} (xs : List Char) (hx : x.isDigit = true) :
    blank.split? (x :: xs) = none ∧ comment.split? (x :: xs) = none ∧
      word.split? (x :: xs) = none := by
  have hnat := toNat_of_isDigit hx
  obtain ⟨hb, hc⟩ := next?_of_graphic (x := x) xs (by omega) (by omega)
  exact ⟨hb, hc, andThen_eq_none (one_eq_none (stops_cons.2 (isAlpha_of_isDigit hx)))⟩

/-- A character that goes on with a number. -/
def isNumberRest (c : Char) : Bool := c.isDigit || c == '.' || c == 'e' || c == 'E'

theorem stops_number (h : Stops isNumberRest rest) : Stops Char.isDigit rest ∧
    Stops (· == '.') rest ∧ Stops (fun c => c == 'e' || c == 'E') rest := by
  refine ⟨h.of_imp fun c hc => ?_, h.of_imp fun c hc => ?_, h.of_imp fun c hc => ?_⟩
  · simp [isNumberRest, hc]
  · simp [isNumberRest, eq_of_beq hc]
  · simp only [isNumberRest, Bool.or_eq_true] at hc ⊢
    rcases hc with hc | hc <;> simp [hc]

theorem lexesAs_integer {n : Nat} (hn : n ≤ maxInteger) (hr : Stops isNumberRest rest) :
    LexesAs (Nat.toDigits 10 n) rest .integer (some (.integer n)) := by
  obtain ⟨hdigit, hpoint, hletter⟩ := stops_number hr
  have hdigits : digits (Nat.toDigits 10 n ++ rest) = some (Nat.toDigits 10 n, rest) :=
    many1_append Nat.toDigits_ne_nil (allDigits_toDigits n) hdigit
  have hfraction : fraction rest = none := andThen_eq_none (one_eq_none hpoint)
  have hexponent : exponent rest = none := andThen_eq_none (one_eq_none hletter)
  have hreal : LexemeClass.real.split? (Nat.toDigits 10 n ++ rest) = none := by
    refine andThen_eq_none_right hdigits ?_
    rw [orElse_right (andThen_eq_none hfraction), hexponent]
  refine lexesAs_of_next? (c := .integer) ?_ fun r => ?_
  · cases hcs : Nat.toDigits 10 n with
    | nil => exact absurd hcs Nat.toDigits_ne_nil
    | cons x xs =>
      have hx : x.isDigit = true := allDigits_toDigits n x (by simp [hcs])
      obtain ⟨hb, hc, hw⟩ := split?_digits (xs ++ rest) hx
      rw [hcs, List.cons_append] at hreal hdigits
      have hinteger : LexemeClass.integer.split? (x :: (xs ++ rest)) = some (x :: xs, rest) :=
        hdigits
      simp [next?, all, hb, hc, hw, hreal, hinteger]
  · simp [token?, ofDigits_toDigits, hn]

/-- An exponent goes as far as its digits go. -/
theorem exponent_append (e : Int) (hr : Stops Char.isDigit rest) :
    exponent ('e' :: (toString e).toList ++ rest) = some ('e' :: (toString e).toList, rest) := by
  have hdigits : digits (Nat.toDigits 10 e.natAbs ++ rest) =
      some (Nat.toDigits 10 e.natAbs, rest) :=
    many1_append Nat.toDigits_ne_nil (allDigits_toDigits _) hr
  have hletter (cs : List Char) : one (fun c => c == 'e' || c == 'E') ('e' :: cs) =
      some (['e'], cs) := one_cons rfl
  rw [toList_toString_int]
  by_cases he : e < 0
  · have hsign (cs : List Char) : (one fun c => c == '+' || c == '-').optional ('-' :: cs) =
        some (['-'], cs) := optional_left (one_cons rfl)
    rw [if_pos he]
    exact andThen_eq (hletter _) (andThen_eq (hsign _) hdigits)
  · rw [if_neg he]
    refine andThen_eq (hletter _) (andThen_eq (optional_right (one_eq_none ?_)) hdigits)
    -- the first digit is no sign
    cases hcs : Nat.toDigits 10 e.natAbs with
    | nil => exact absurd hcs Nat.toDigits_ne_nil
    | cons x xs =>
      have hx := toNat_of_isDigit (allDigits_toDigits e.natAbs x (by simp [hcs]))
      refine stops_cons.2 (Bool.eq_false_iff.2 fun h => ?_)
      simp only [Bool.or_eq_true, beq_iff_eq] at h
      rcases h with rfl | rfl <;> simp at hx

/-- A literal goes as far as its characters go. -/
theorem RealLiteral.split (l : RealLiteral) (hr : Stops isNumberRest rest) :
    LexemeClass.real.split? (l.chars ++ rest) = some (l.chars, rest) := by
  obtain ⟨hdigit, -, hletter⟩ := stops_number hr
  have hexponent_none : LexemeClass.exponent rest = none := andThen_eq_none (one_eq_none hletter)
  have htail : Stops Char.isDigit (l.exponentChars ++ rest) := by
    unfold exponentChars
    split
    · exact hdigit
    · exact stops_cons.2 (by decide)
  have hwhole : digits (l.whole ++ (l.fractionChars ++ (l.exponentChars ++ rest))) =
      some (l.whole, l.fractionChars ++ (l.exponentChars ++ rest)) := by
    refine many1_append l.whole_ne l.whole_digits ?_
    unfold fractionChars
    split
    · exact htail
    · exact stops_cons.2 (by decide)
  rw [chars, List.append_assoc, List.append_assoc, List.append_assoc]
  refine andThen_eq hwhole ?_
  by_cases hf : l.fraction = []
  · -- without a point there is an exponent
    obtain ⟨e, he⟩ := Option.isSome_iff_exists.1 (l.shows.resolve_left (not_not_intro hf))
    have hchars : l.exponentChars = 'e' :: (toString e).toList := by simp [exponentChars, he]
    have hnone : fractionChars l = [] := by simp [fractionChars, hf]
    rw [hnone, hchars, List.nil_append, List.nil_append]
    refine (orElse_right (andThen_eq_none (andThen_eq_none ?_))).trans (exponent_append e hdigit)
    exact one_eq_none (stops_cons.2 (by decide))
  · have hpoint : l.fractionChars = '.' :: l.fraction := by simp [fractionChars, hf]
    have hfraction : LexemeClass.fraction (l.fractionChars ++ (l.exponentChars ++ rest)) =
        some (l.fractionChars, l.exponentChars ++ rest) := by
      rw [hpoint]
      have hdot (cs : List Char) : one (· == '.') ('.' :: cs) = some (['.'], cs) := one_cons rfl
      exact andThen_eq (hdot _) (many1_append hf l.fraction_digits htail)
    refine orElse_left (andThen_eq hfraction ?_)
    cases he : l.exponent with
    | none =>
      have hchars : l.exponentChars = [] := by simp [exponentChars, he]
      rw [hchars]
      exact optional_right hexponent_none
    | some e =>
      have hchars : l.exponentChars = 'e' :: (toString e).toList := by simp [exponentChars, he]
      rw [hchars]
      exact optional_left (exponent_append e hdigit)

theorem lexesAs_real {l : RealLiteral} {x : Binary64} (hx : realValue? l.chars = some x)
    (hr : Stops isNumberRest rest) : LexesAs l.chars rest .real (some (.real x)) := by
  have hreal := l.split hr
  refine lexesAs_of_next? (c := .real) ?_ fun r => ?_
  · obtain ⟨y, ys, hcs⟩ : ∃ y ys, l.whole = y :: ys := List.exists_cons_of_ne_nil l.whole_ne
    have hchars : l.chars = y :: (ys ++ l.fractionChars ++ l.exponentChars) := by
      simp [RealLiteral.chars, hcs]
    have hy : y.isDigit = true := l.whole_digits y (by simp [hcs])
    rw [hchars, List.cons_append] at hreal ⊢
    obtain ⟨hb, hc, hw⟩ := split?_digits
      (ys ++ l.fractionChars ++ l.exponentChars ++ rest) hy
    simp only [next?, all, List.cons_append, List.findSome?_cons, hb, hc, hw, hreal,
      Option.map_none, Option.map_some]
  · simp [token?, hx]

/-! ## Strings -/

/-- A text with every quote written twice. -/
def double (cs : List Char) : List Char :=
  cs.flatMap fun c => if c = '\'' then ['\'', '\''] else [c]

theorem undouble_double (cs : List Char) : undouble (double cs) = cs := by
  induction cs with
  | nil => rfl
  | cons c cs ih =>
    rw [double, List.flatMap_cons]
    by_cases hc : c = '\''
    · rw [if_pos hc, hc]
      exact congrArg ('\'' :: ·) ih
    · rw [if_neg hc, List.singleton_append, undouble]
      · exact congrArg (c :: ·) ih
      · rintro _ rfl
        exact absurd rfl hc

theorem double_quote (cs : List Char) : double ('\'' :: cs) = '\'' :: '\'' :: double cs := rfl

theorem double_cons {c : Char} (hc : c ≠ '\'') (cs : List Char) :
    double (c :: cs) = c :: double cs := by simp [double, hc]

theorem stringRest_cons {c : Char} (hc : c ≠ '\'') (cs : List Char) :
    stringRest (c :: cs) = (stringRest cs).map fun (x, rest) => (c :: x, rest) := by
  rw [stringRest]
  · rw [if_neg hc]
  · rintro _ rfl
    exact absurd rfl hc

/-- A quote that no other follows closes a string. -/
theorem stringRest_close (hr : Stops (· == '\'') rest) :
    stringRest ('\'' :: rest) = some (['\''], rest) := by
  rw [stringRest]
  · rw [if_pos rfl]
  · rintro cs - rfl
    simpa using stops_cons.1 hr

/-- Behind its opening quote a string goes up to a quote that no other follows. -/
theorem stringRest_double (cs : List Char) (hr : Stops (· == '\'') rest) :
    stringRest (double cs ++ '\'' :: rest) = some (double cs ++ ['\''], rest) := by
  induction cs with
  | nil => exact stringRest_close hr
  | cons c cs ih =>
    by_cases hc : c = '\''
    · subst hc
      rw [double_quote, List.cons_append, List.cons_append, stringRest, ih]
      rfl
    · rw [double_cons hc, List.cons_append, stringRest_cons hc, ih]
      rfl

/-- The piece between the quotes is taken whole, whatever quotes stand farther back. -/
theorem next?_string (cs : List Char) (hr : Stops (· == '\'') rest) :
    next? ('\'' :: (double cs ++ ['\'']) ++ rest) =
      some (.string, '\'' :: (double cs ++ ['\'']), rest) := by
  have hstring : LexemeClass.string.split? ('\'' :: (double cs ++ '\'' :: rest)) =
      some ('\'' :: (double cs ++ ['\'']), rest) := by
    have hopen (cs : List Char) : one (· == '\'') ('\'' :: cs) = some (['\''], cs) := one_cons rfl
    exact andThen_eq (hopen _) (stringRest_double cs hr)
  obtain ⟨hb, hc⟩ := next?_of_graphic (x := '\'') (double cs ++ '\'' :: rest) (by decide)
    (by decide)
  have hw : word.split? ('\'' :: (double cs ++ '\'' :: rest)) = none := rfl
  have hreal : LexemeClass.real.split? ('\'' :: (double cs ++ '\'' :: rest)) = none := rfl
  have hinteger : LexemeClass.integer.split? ('\'' :: (double cs ++ '\'' :: rest)) = none := rfl
  rw [List.cons_append, List.append_assoc, List.singleton_append]
  simp only [next?, all, List.cons_append, List.findSome?_cons, hb, hc, hw, hreal, hinteger,
    hstring, Option.map_none, Option.map_some]

theorem stringValue_double (cs : List Char) :
    stringValue ('\'' :: (double cs ++ ['\''])) = String.ofList cs := by
  rw [stringValue, List.drop_one, List.tail_cons, List.dropLast_concat, undouble_double]

theorem lexesAs_string (cs : List Char) (hr : Stops (· == '\'') rest) :
    LexesAs ('\'' :: (double cs ++ ['\''])) rest .string (some (.string (String.ofList cs))) :=
  lexesAs_of_next? (next?_string cs hr) fun r => by rw [token?, stringValue_double]

end PascalBlock
