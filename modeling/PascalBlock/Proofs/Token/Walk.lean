import PascalBlock.Proofs.Token.Tiling

/-!
# The walk of a scan

A scan takes one lexeme after the other. `Reader.Walk` is the way that it goes from one reader to
another, with the tokens that it finds there. Every scan is a walk to the end of its source, or to a
place where it fails (`walk_or_fail`), and so whatever each lexeme brings about is known of a whole
scan by induction on its walk. What is taken on a walk is also taken where the text ends with it
(`Walk.cut`), and the parts of the text in front of its tokens tell where they stand
(`Walk.exists_places`).
-/

namespace PascalBlock

open Text Splitter LexemeClass

variable {r r' : Reader} {c : LexemeClass} {t : Token} {tokens ts : List Token}
  {piece before rest rest' : List Char} {found : Option Token} {e : Error} {source file : String}

/-! ## What decides about a lexeme -/

namespace LexemeClass

/-- The first class that fits takes `piece` just when that is the longest lexeme of all. -/
theorem next?_append_eq_some_iff : next? (piece ++ rest) = some (c, piece, rest) ↔
    c ∈ all ∧ piece ∈ c.language ∧
      ∀ d ∈ all, ∀ y ∈ d.language, y <+: piece ++ rest → y.length ≤ piece.length := by
  constructor
  · intro h
    obtain ⟨hc, hsplit⟩ := next?_eq_some h
    exact ⟨hc, (takesLongest_split? c).mem hsplit,
      fun d hd y hy hp => length_le_of_next? h hd hy hp⟩
  · rintro ⟨hc, hpiece, hlongest⟩
    obtain ⟨d, x, behind, h⟩ := exists_next? hc hpiece (List.prefix_append piece rest)
    obtain ⟨hd, hsplit⟩ := next?_eq_some h
    have hx := (takesLongest_split? d).mem hsplit
    have hsound := sound_split? d _ _ _ hsplit
    -- both are as long as the other, and both begin the text
    have hle := length_le_of_next? h hc hpiece (List.prefix_append piece rest)
    have hge := hlongest d hd x hx ⟨behind, hsound⟩
    obtain ⟨rfl, rfl⟩ := List.append_inj hsound (Nat.le_antisymm hge hle)
    obtain rfl := eq_of_mem_language hc hd hpiece hx
    exact h

theorem append_of_next? {cs : List Char} (h : next? cs = some (c, piece, rest)) :
    piece ++ rest = cs := sound_split? c _ _ _ (next?_eq_some h).2

/-- A lexeme stays the longest where less text follows it. -/
theorem next?_cut (h : next? (piece ++ rest) = some (c, piece, rest)) (hp : rest' <+: rest) :
    next? (piece ++ rest') = some (c, piece, rest') := by
  obtain ⟨hc, hpiece, hlongest⟩ := next?_append_eq_some_iff.1 h
  refine next?_append_eq_some_iff.2 ⟨hc, hpiece, fun d hd y hy hy' => ?_⟩
  exact hlongest d hd y hy (hy'.trans ((List.prefix_append_right_inj piece).2 hp))

end LexemeClass

namespace Reader

/-- The reader at the same place, in front of another text. -/
def inFrontOf (r : Reader) (cs : List Char) : Reader := { r with rest := cs }

@[simp] theorem inFrontOf_rest (r : Reader) (cs : List Char) : (r.inFrontOf cs).rest = cs := rfl

theorem token?_inFrontOf (r : Reader) (cs piece : List Char) (c : LexemeClass) :
    c.token? (r.inFrontOf cs) piece = c.token? r piece := by
  cases c <;> rfl

/-! ## Walks -/

/-- From one reader to another the scan takes lexeme after lexeme, and finds tokens. -/
inductive Walk : Reader → List Token → Reader → Prop
  | refl (r : Reader) : Walk r [] r
  | step {r r' : Reader} {c : LexemeClass} {piece rest : List Char} {found : Option Token}
      {ts : List Token} (hnext : next? r.rest = some (c, piece, rest))
      (htoken : c.token? r piece = .ok found) (walk : Walk (r.past piece rest) ts r') :
      Walk r (found.toList ++ ts) r'

/-- Where a scan cannot go on: no class fits, or the number in front is out of range. -/
inductive Fails : Reader → Error → Prop
  | unrecognised {r : Reader} (hnext : next? r.rest = none) (hrest : r.rest ≠ []) :
      Fails r (r.error (.unrecognisedToken (String.singleton r.current)))
  | outOfRange {r : Reader} {c : LexemeClass} {piece rest : List Char}
      (hnext : next? r.rest = some (c, piece, rest)) (hrange : c.OutOfRange piece) :
      Fails r (r.error (.numberParse (String.ofList piece)))

theorem scans_found (hnext : next? r.rest = some (c, piece, rest))
    (htoken : c.token? r piece = .ok found) : r.Scans found.toList (r.past piece rest) := by
  cases found with
  | none => exact scans_nothing hnext htoken
  | some t => exact scans_token hnext htoken

theorem Walk.scans (h : Walk r ts r') : r.Scans ts r' := by
  induction h with
  | refl r => exact .refl r
  | step hnext htoken _ ih => exact (scans_found hnext htoken).trans ih

/-- The walk takes the text between the two readers. -/
theorem Walk.exists_text (h : Walk r ts r') :
    ∃ text, r.rest = text ++ r'.rest ∧ r' = r.past text r'.rest := by
  induction h with
  | refl r => exact ⟨[], rfl, (past_nil rfl).symm⟩
  | @step r r' c piece rest found ts hnext _ _ ih =>
    obtain ⟨text, hrest, hr'⟩ := ih
    refine ⟨piece ++ text, ?_, ?_⟩
    · rw [← append_of_next? hnext, List.append_assoc, ← hrest]
      rfl
    · rw [← past_past]
      exact hr'

/-- Each token is spelled by a piece of the text. -/
theorem Walk.exists_of_mem (h : Walk r ts r') (ht : t ∈ ts) :
    ∃ text c piece rest kind literal, r.rest = text ++ (piece ++ rest) ∧ r'.rest <:+ rest ∧
      next? (piece ++ rest) = some (c, piece, rest) ∧
      c.token? (r.past text (piece ++ rest)) piece = .ok (some t) ∧
      t = (r.past text (piece ++ rest)).token kind piece literal ∧ kind ≠ .endOfText := by
  induction h with
  | refl => cases ht
  | @step r r' c piece rest found ts hnext htoken walk ih =>
    have hsplit := append_of_next? hnext
    rcases List.mem_append.1 ht with ht | ht
    · obtain rfl := Option.mem_toList.1 ht
      obtain ⟨hc, hpiece⟩ := next?_eq_some hnext
      obtain ⟨text, hrest, -⟩ := walk.exists_text
      rcases of_token?_eq_ok hc ((takesLongest_split? c).mem hpiece) htoken with
        ⟨h, -⟩ | ⟨kind, literal, h, hkind⟩
      · cases h
      · refine ⟨[], c, piece, rest, kind, literal, hsplit.symm, ⟨text, hrest.symm⟩, ?_⟩
        rw [hsplit, past_nil rfl]
        exact ⟨hnext, htoken, Option.some.inj h, hkind⟩
    · obtain ⟨text, d, x, behind, kind, literal, hrest, hbehind, hx, htoken', ht', hkind⟩ := ih ht
      refine ⟨piece ++ text, d, x, behind, kind, literal, ?_, hbehind, hx, ?_⟩
      · rw [← hsplit, List.append_assoc, ← hrest]
        rfl
      · rw [← past_past]
        exact ⟨htoken', ht', hkind⟩

/-- Where a walk to the end of a text goes on from, some class fits. -/
theorem Walk.eq_nil_or_next? (h : Walk r ts r') (hend : r'.rest = []) :
    r.rest = [] ∨ ∃ c piece rest, next? r.rest = some (c, piece, rest) := by
  cases h with
  | refl => exact .inl hend
  | step hnext => exact .inr ⟨_, _, _, hnext⟩

/-- A text that ends where a walk does is walked through in the same steps. -/
theorem Walk.cut (h : Walk r ts r') : ∀ {text}, r.rest = text ++ r'.rest →
    Walk (r.inFrontOf text) ts (r'.inFrontOf []) := by
  induction h with
  | refl r =>
    intro text htext
    obtain rfl : text = [] := by simpa using htext
    exact .refl _
  | @step r r' c piece rest found ts hnext htoken walk ih =>
    intro text htext
    obtain ⟨behind, hrest, -⟩ := walk.exists_text
    have hsplit := append_of_next? hnext
    change rest = behind ++ r'.rest at hrest
    obtain rfl : text = piece ++ behind := by
      rw [← hsplit, hrest, ← List.append_assoc] at htext
      exact (List.append_cancel_right htext).symm
    rw [← hsplit] at hnext
    refine .step (next?_cut hnext (hrest ▸ List.prefix_append behind r'.rest)) ?_ (ih hrest)
    rw [token?_inFrontOf, htoken]

/-! ## Scans as walks -/

theorem scan_of_fails (h : Fails r e) (before : List Token) : r.scan before = .error e := by
  cases h with
  | unrecognised hnext hrest =>
    rw [scan]
    split
    · next h' => rw [hnext] at h'; cases h'
    · rw [if_neg (by simpa [atEnd] using hrest)]
  | outOfRange hnext hrange => exact scan_of_outOfRange hnext hrange before

/-- A scan walks to the end of its text, or to where it fails. -/
theorem walk_or_fail (r : Reader) : (∃ ts r', Walk r ts r' ∧ r'.rest = []) ∨
    ∃ ts r' e, Walk r ts r' ∧ r'.Fails e := by
  fun_induction Reader.scan r [] with
  | case1 r _ c piece rest hnext htoken ih =>
    rcases ih with ⟨ts, r', walk, hend⟩ | ⟨ts, r', e, walk, hfails⟩
    · exact .inl ⟨_, r', .step hnext htoken walk, hend⟩
    · exact .inr ⟨_, r', e, .step hnext htoken walk, hfails⟩
  | case2 r _ c piece rest hnext t htoken ih =>
    rcases ih with ⟨ts, r', walk, hend⟩ | ⟨ts, r', e, walk, hfails⟩
    · exact .inl ⟨_, r', .step hnext htoken walk, hend⟩
    · exact .inr ⟨_, r', e, .step hnext htoken walk, hfails⟩
  | case3 r _ c piece rest hnext e htoken =>
    have hrange : c.OutOfRange piece := by
      by_contra hrange
      obtain ⟨hc, hsplit⟩ := next?_eq_some hnext
      obtain ⟨literal, hok⟩ := token?_eq_ok (r := r) ((takesLongest_split? c).mem hsplit) hrange
      rw [hok] at htoken
      cases htoken
    exact .inr ⟨[], r, _, .refl r, .outOfRange hnext hrange⟩
  | case4 r _ hnext hend => exact .inl ⟨[], r, .refl r, List.isEmpty_iff.1 hend⟩
  | case5 r _ hnext hend =>
    exact .inr ⟨[], r, _, .refl r, .unrecognised hnext fun h => hend (List.isEmpty_iff.2 h)⟩

end Reader

open Reader

theorem tokenize_of_walk (h : Walk (.ofSource source file) ts r) (hend : r.rest = []) :
    tokenize source file = .ok (ts ++ [r.endToken]) := by
  rw [tokenize, h.scans [], scan_end hend]
  simp

theorem tokenize_of_fails (h : Walk (.ofSource source file) ts r) (hfails : r.Fails e) :
    tokenize source file = .error e := by
  rw [tokenize, h.scans [], scan_of_fails hfails]

theorem walk_of_tokenize (h : tokenize source file = .ok tokens) :
    ∃ ts r, Walk (.ofSource source file) ts r ∧ r.rest = [] ∧ tokens = ts ++ [r.endToken] := by
  rcases walk_or_fail (.ofSource source file) with ⟨ts, r, walk, hend⟩ | ⟨ts, r, e, walk, hfails⟩
  · rw [tokenize_of_walk walk hend] at h
    exact ⟨ts, r, walk, hend, (Except.ok.inj h).symm⟩
  · rw [tokenize_of_fails walk hfails] at h
    cases h

theorem walk_of_error (h : tokenize source file = .error e) :
    ∃ ts r, Walk (.ofSource source file) ts r ∧ r.Fails e := by
  rcases walk_or_fail (.ofSource source file) with ⟨ts, r, walk, hend⟩ | ⟨ts, r, e', walk, hfails⟩
  · rw [tokenize_of_walk walk hend] at h
    cases h
  · rw [tokenize_of_fails walk hfails] at h
    obtain rfl := Except.error.inj h
    exact ⟨ts, r, walk, hfails⟩

/-! ## Where the tokens stand -/

/-- The offset of a place fits a word if the size of the source does. -/
theorem toNat_offset (hsize : source.utf8ByteSize < 2 ^ 32) (h : source.toList = before ++ rest) :
    (UInt32.ofNat (byteLength before)).toNat = byteLength before := by
  rw [utf8ByteSize_eq, h, byteLength_append] at hsize
  exact UInt32.toNat_ofNat_of_lt' (Nat.lt_of_le_of_lt (Nat.le_add_right _ _) hsize)

/-- The token stands where `before` has been read from `r` on. -/
structure Reader.Places (r : Reader) (before : List Char) (t : Token) : Prop where
  start : t.start = ⟨r.file, .ofNat (r.offset + byteLength before)⟩
  stop : t.stop = ⟨r.file, .ofNat (r.offset + byteLength (before ++ t.spelling))⟩
  line : t.line = r.line + .ofNat (newlines before)

/-- Tokens with what has been read of `text` in front of each. The one that marks the end has the
whole text in front of it. -/
structure Reader.PlacesAll (r : Reader) (text : List Char) (places : List (List Char × Token)) :
    Prop where
  grows : places.Pairwise fun x y => x.1 <+: y.1
  within : ∀ x ∈ places, x.1 ++ x.2.spelling <+: text
  ending : ∀ x ∈ places, x.1 = text ↔ x.2.kind = .endOfText
  each : ∀ x ∈ places, r.Places x.1 x.2

namespace Reader

theorem spelling_token {kind : TokenKind} (hk : kind ≠ .endOfText) (r : Reader)
    (piece : List Char) (literal : Option Literal) :
    (r.token kind piece literal).spelling = piece := by
  rw [Token.spelling, if_neg (show (r.token kind piece literal).kind ≠ .endOfText from hk)]
  exact String.toList_ofList

theorem places_token {kind : TokenKind} (hk : kind ≠ .endOfText) (r : Reader) (piece : List Char)
    (literal : Option Literal) : r.Places [] (r.token kind piece literal) := by
  refine ⟨rfl, ?_, ?_⟩
  · rw [spelling_token hk]
    rfl
  · simp [token, span, newlines]

theorem places_endToken (r : Reader) : r.Places [] r.endToken :=
  ⟨rfl, rfl, by simp [endToken, Token.endAt, newlines]⟩

/-- The lines of a source are counted from one. -/
theorem Places.line_eq (h : (ofSource source file).Places before t) :
    t.line = .ofNat (1 + newlines before) := by
  rw [h.line, UInt32.ofNat_add]
  rfl

theorem Places.start_eq (h : (ofSource source file).Places before t) :
    t.start = ⟨file, .ofNat (byteLength before)⟩ := by
  rw [h.start]
  simp [ofSource]

theorem Places.behind (h : (r.past piece rest).Places before t) : r.Places (piece ++ before) t where
  start := by rw [h.start, byteLength_append, ← Nat.add_assoc]; rfl
  stop := by rw [h.stop, List.append_assoc, byteLength_append piece, ← Nat.add_assoc]; rfl
  line := by rw [h.line, newlines_append, UInt32.ofNat_add, ← UInt32.add_assoc]; rfl

theorem PlacesAll.behind {text : List Char} {places : List (List Char × Token)}
    (h : (r.past piece rest).PlacesAll text places) :
    r.PlacesAll (piece ++ text) (places.map fun x => (piece ++ x.1, x.2)) where
  grows := List.pairwise_map.2 (h.grows.imp (List.prefix_append_right_inj piece).2)
  within := List.forall_mem_map.2 fun x hx =>
    List.append_assoc .. ▸ (List.prefix_append_right_inj piece).2 (h.within x hx)
  ending := List.forall_mem_map.2 fun x hx =>
    (List.append_right_inj piece).trans (h.ending x hx)
  each := List.forall_mem_map.2 fun x hx => (h.each x hx).behind

/-- One more token in front. -/
theorem PlacesAll.cons {text : List Char} {places : List (List Char × Token)}
    (h : r.PlacesAll text places) (ht : r.Places [] t) (hp : t.spelling <+: text)
    (hend : [] = text ↔ t.kind = .endOfText) : r.PlacesAll text (([], t) :: places) where
  grows := List.pairwise_cons.2 ⟨fun _ _ => List.nil_prefix, h.grows⟩
  within := List.forall_mem_cons.2 ⟨hp, h.within⟩
  ending := List.forall_mem_cons.2 ⟨hend, h.ending⟩
  each := List.forall_mem_cons.2 ⟨ht, h.each⟩

theorem Walk.exists_places (h : Walk r ts r') (hend : r'.rest = []) :
    ∃ places, places.map (·.2) = ts ++ [r'.endToken] ∧ r.PlacesAll r.rest places := by
  induction h with
  | refl r =>
    have hnone : r.PlacesAll r.rest [] :=
      ⟨.nil, List.forall_mem_nil _, List.forall_mem_nil _, List.forall_mem_nil _⟩
    exact ⟨[([], r.endToken)], rfl,
      hnone.cons r.places_endToken List.nil_prefix (iff_of_true hend.symm rfl)⟩
  | @step r r' c piece rest found ts hnext htoken _ ih =>
    obtain ⟨places, hplaces, hall⟩ := ih hend
    have hbehind := hall.behind
    rw [show (r.past piece rest).rest = rest from rfl, append_of_next? hnext] at hbehind
    have hmap : (places.map fun x => (piece ++ x.1, x.2)).map (·.2) = ts ++ [r'.endToken] := by
      rw [List.map_map, ← hplaces]
      rfl
    obtain ⟨hc, hsplit⟩ := next?_eq_some hnext
    rcases of_token?_eq_ok hc ((takesLongest_split? c).mem hsplit) htoken with
      ⟨rfl, -⟩ | ⟨kind, literal, rfl, hk⟩
    · exact ⟨_, hmap, hbehind⟩
    · have hprefix : (r.token kind piece literal).spelling <+: r.rest := by
        rw [spelling_token hk]
        exact ⟨rest, append_of_next? hnext⟩
      have hne : r.rest ≠ [] := by
        rw [← append_of_next? hnext]
        simp [consumes_split? c hc _ _ _ hsplit]
      refine ⟨_, ?_, hbehind.cons (places_token hk r piece literal) hprefix
        (iff_of_false (Ne.symm hne) hk)⟩
      rw [List.map_cons, hmap]
      rfl

end Reader

/-- **The tokens stand in the order of the source**, whatever its size. -/
theorem places_of_tokenize (h : tokenize source file = .ok tokens) :
    ∃ places, places.map (·.2) = tokens ∧
      (Reader.ofSource source file).PlacesAll source.toList places := by
  obtain ⟨ts, r, walk, hend, rfl⟩ := walk_of_tokenize h
  exact walk.exists_places hend

/-- Every token has a part of the source in front of it, and only the one at the end has nothing
behind. -/
theorem place_of_tokenize (h : tokenize source file = .ok tokens) (ht : t ∈ tokens) :
    ∃ before behind, source.toList = before ++ behind ∧
      (Reader.ofSource source file).Places before t ∧ t.spelling <+: behind ∧
      (behind = [] ↔ t.kind = .endOfText) := by
  obtain ⟨places, rfl, hall⟩ := places_of_tokenize h
  obtain ⟨⟨before, t⟩, hx, rfl⟩ := List.mem_map.1 ht
  obtain ⟨rest, hrest⟩ := hall.within _ hx
  rw [List.append_assoc] at hrest
  refine ⟨before, _, hrest.symm, hall.each _ hx, List.prefix_append _ rest, ?_⟩
  rw [← hall.ending _ hx, ← hrest]
  exact List.self_eq_append_right.symm

end PascalBlock
