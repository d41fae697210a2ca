import PascalBlock.CrossReference
import PascalBlock.Proofs.Parser.Accepted
import PascalBlock.Proofs.Parser.Names
import PascalBlock.Proofs.RoundTrip
import PascalBlock.Proofs.Scope.Sorted
import PascalBlock.Proofs.Text.Line
import PascalBlock.Proofs.Text.Words

/-!
# The cross-reference listing is read back

A row of the listing is split at its blanks into a name and line numbers, whatever the widths of its
columns (`readRow?_row`), so the rows under the heading are the table of the names in the scope
(`readTable?_listing`). Main result: for every source, however malformed, this table has a row for
each name that was read, in the order of the bytes of the names, with the lines of all its uses.
-/

namespace PascalBlock

open Text

namespace CrossReference

variable {name : String} {c : Char} {xs rest : List Char}

/-! ## Rows -/

theorem isWhiteSpace_of_nameChar (h : c.isLower = true ∨ c.isDigit = true ∨ c = '_') :
    Unicode.isWhiteSpace c = false := by
  rcases h with h | h | rfl
  · have hrange := toNat_of_isLower h
    exact isWhiteSpace_of_graphic (by omega) (by omega)
  · have hrange := toNat_of_isDigit h
    exact isWhiteSpace_of_graphic (by omega) (by omega)
  · decide

theorem words_name (h : IsName name) : words name.toList = [name.toList] := by
  refine words_of_no_blank ?_ fun c hc => isWhiteSpace_of_nameChar (h.chars c hc)
  obtain ⟨⟨c, cs, hcs, -⟩, -⟩ := h
  rw [hcs]
  exact List.cons_ne_nil c cs

/-- A line number is its digits behind zeros. -/
theorem toList_lineNumber (n : UInt32) :
    ∃ k, (lineNumber n).toList = List.replicate k '0' ++ Nat.toDigits 10 n.toNat :=
  ⟨3 - (toString n.toNat).length, by simp [lineNumber]⟩

theorem allDigits_lineNumber (n : UInt32) : AllDigits (lineNumber n).toList := by
  obtain ⟨k, hk⟩ := toList_lineNumber n
  rw [hk]
  exact allDigits_append.2 ⟨allDigits_zeros k, allDigits_toDigits n.toNat⟩

theorem lineNumber_ne_nil (n : UInt32) : (lineNumber n).toList ≠ [] := by
  obtain ⟨k, hk⟩ := toList_lineNumber n
  simp [hk]

/-- A line number in decimal, as a word. -/
def readLine? (cs : List Char) : Option UInt32 := (Decimal.digits? cs).map .ofNat

theorem readLine?_lineNumber (n : UInt32) : readLine? (lineNumber n).toList = some n := by
  have hall : (lineNumber n).toList.all Char.isDigit = true :=
    List.all_eq_true.2 (allDigits_lineNumber n)
  have hne : (lineNumber n).toList.isEmpty = false :=
    List.isEmpty_eq_false_iff.2 (lineNumber_ne_nil n)
  rw [readLine?, Decimal.digits?, hall, hne]
  obtain ⟨k, hk⟩ := toList_lineNumber n
  simp [hk, ofDigits_zeros_append, ofDigits_toDigits]

theorem words_lineNumber (n : UInt32) : words (lineNumber n).toList = [(lineNumber n).toList] :=
  words_of_no_blank (lineNumber_ne_nil n) fun c hc =>
    isWhiteSpace_of_nameChar (.inr (.inl (allDigits_lineNumber n c hc)))

theorem toList_lineNumbers (n m : UInt32) (lines : List UInt32) :
    (" ".intercalate ((n :: m :: lines).map lineNumber)).toList =
      (lineNumber n).toList ++ ' ' :: (" ".intercalate ((m :: lines).map lineNumber)).toList := by
  rw [List.map_cons, List.map_cons, String.intercalate_cons_cons]
  simp

/-- Line numbers between blanks are a word each. -/
theorem words_lineNumbers : ∀ lines : List UInt32,
    words ((" ".intercalate (lines.map lineNumber)).toList ++ ['\n']) =
      lines.map fun n => (lineNumber n).toList
  | [] => words_blank (by decide) []
  | [n] => by
    have hone : " ".intercalate ([n].map lineNumber) = lineNumber n := rfl
    rw [hone, words_append_blank (by decide), words_lineNumber, words_nil]
    rfl
  | n :: m :: lines => by
    rw [toList_lineNumbers, List.append_assoc, List.cons_append, words_append_blank (by decide),
      words_lineNumber, words_lineNumbers (m :: lines)]
    rfl

/-- A row split at its blanks: a name, and line numbers in decimal. -/
def readRow? (cs : List Char) : Option (String × List UInt32) :=
  match words cs with
  | [] => none
  | name :: numbers => (numbers.mapM readLine?).map fun lines => (String.ofList name, lines)

theorem mapM_readLine? (lines : List UInt32) :
    (lines.map fun n => (lineNumber n).toList).mapM readLine? = some lines := by
  induction lines with
  | nil => rfl
  | cons n lines ih => simp [readLine?_lineNumber, ih]

theorem toList_row (name : String) (lines : List UInt32) : (row name lines).toList =
    name.toList ++ ' ' :: (List.replicate (16 - name.length) ' ' ++
      ((" ".intercalate (lines.map lineNumber)).toList ++ ['\n'])) := by
  simp [row, nameColumn, ← List.replicate_succ', List.replicate_succ]

/-- **A row is read back**, also where its name or its numbers fill their columns. -/
theorem readRow?_row (h : IsName name) (lines : List UInt32) :
    readRow? (row name lines).toList = some (name, lines) := by
  have hblank : Unicode.isWhiteSpace ' ' = true := by decide
  have hwords : words (row name lines).toList =
      name.toList :: lines.map fun n => (lineNumber n).toList := by
    rw [toList_row, words_append_blank hblank, words_name h, words_blanks hblank,
      words_lineNumbers, List.singleton_append]
  rw [readRow?, hwords]
  change ((lines.map fun n => (lineNumber n).toList).mapM readLine?).map _ = _
  rw [mapM_readLine?, Option.map_some, String.ofList_toList]

/-! ## Listings -/

theorem notMem_lineNumbers : ∀ lines : List UInt32,
    '\n' ∉ (" ".intercalate (lines.map lineNumber)).toList
  | [] => by simp
  | [n] => (allDigits_lineNumber n).notMem_feed
  | n :: m :: lines => by
    rw [toList_lineNumbers, List.mem_append, List.mem_cons]
    rintro (h | h | h)
    · exact (allDigits_lineNumber n).notMem_feed h
    · cases h
    · exact notMem_lineNumbers (m :: lines) h

theorem notMem_name (h : IsName name) : '\n' ∉ name.toList := fun hfeed =>
  absurd (isWhiteSpace_of_nameChar (h.chars _ hfeed)) (by decide)

/-- A row is one line. -/
theorem lines_row (h : IsName name) (ls : List UInt32) (rest : List Char) :
    lines ((row name ls).toList ++ rest) = (row name ls).toList :: lines rest := by
  have hname := notMem_name h
  have hnumbers := notMem_lineNumbers ls
  have hrow : (row name ls).toList = (name.toList ++ ' ' ::
      (List.replicate (16 - name.length) ' ' ++
        (" ".intercalate (ls.map lineNumber)).toList)) ++ ['\n'] := by
    rw [toList_row]
    simp
  rw [hrow, List.append_assoc, List.singleton_append, lines_append_feed]
  simp only [List.mem_append, List.mem_cons, List.mem_replicate, not_or]
  exact ⟨hname, by decide, fun h => absurd h.2 (by decide), hnumbers⟩

/-- The names of the innermost scope, each with its lines. -/
def table (s : ScopeStack) : List (String × List UInt32) :=
  s.innermost.entries.map fun i => (i.2.name, s.linesOf i.2)

/-- The rows behind the four lines of the heading. -/
def readTable? (text : String) : Option (List (String × List UInt32)) :=
  ((lines text.toList).drop 4).mapM readRow?

theorem lines_rows {rows : List (String × List UInt32)} (h : ∀ r ∈ rows, IsName r.1) :
    lines (String.join (rows.map fun r => row r.1 r.2)).toList =
      rows.map fun r => (row r.1 r.2).toList := by
  induction rows with
  | nil => rfl
  | cons r rows ih =>
    rw [List.forall_mem_cons] at h
    rw [List.map_cons, String.join_cons, String.toList_append, lines_row h.1, ih h.2,
      List.map_cons]

theorem mapM_readRow? {rows : List (String × List UInt32)} (h : ∀ r ∈ rows, IsName r.1) :
    (rows.map fun r => (row r.1 r.2).toList).mapM readRow? = some rows := by
  induction rows with
  | nil => rfl
  | cons r rows ih =>
    rw [List.forall_mem_cons] at h
    rw [List.map_cons, List.mapM_cons, readRow?_row h.1, ih h.2]
    rfl

theorem wholeLines_heading : WholeLines heading.toList := wholeLines_of_getLast? (by decide)

theorem length_heading : (lines heading.toList).length = 4 := by decide +kernel

theorem listing_eq (s : ScopeStack) :
    listing s = heading ++ String.join ((table s).map fun r => row r.1 r.2) := by
  rw [table, List.map_map]
  rfl

/-- The heading and then the rows. -/
theorem lines_listing {s : ScopeStack} (h : ∀ i ∈ s.innermost.entries, IsName i.2.name) :
    lines (listing s).toList =
      lines heading.toList ++ (table s).map fun r => (row r.1 r.2).toList := by
  have hnames : ∀ r ∈ table s, IsName r.1 := List.forall_mem_map.2 h
  rw [listing_eq, String.toList_append, wholeLines_heading.lines_append, lines_rows hnames]

/-- **The listing is read back as the table of the scope**. -/
theorem readTable?_listing {s : ScopeStack} (h : ∀ i ∈ s.innermost.entries, IsName i.2.name) :
    readTable? (listing s) = some (table s) := by
  rw [readTable?, lines_listing h, ← length_heading, List.drop_left]
  exact mapM_readRow? (List.forall_mem_map.2 h)

/-! ## The order of names -/

/-- The UTF-8 form. -/
def bytes (s : String) : List UInt8 := s.toUTF8.data.toList

theorem bytes_eq (s : String) : bytes s = s.toList.flatMap String.utf8EncodeChar := by
  have hencoded : s.toUTF8 = (s.toList.flatMap String.utf8EncodeChar).toByteArray :=
    toByteArray_eq s
  rw [bytes, hencoded, List.data_toByteArray]

theorem utf8EncodeChar_of_ascii (h : c.toNat < 128) :
    String.utf8EncodeChar c = [UInt8.ofNat c.toNat] := by
  simp [String.utf8EncodeChar]
  omega

/-- Small characters are in the order of their bytes. -/
theorem flatMap_lt : ∀ {xs ys : List Char}, (∀ c ∈ xs, c.toNat < 128) → (∀ c ∈ ys, c.toNat < 128) →
    xs < ys → xs.flatMap String.utf8EncodeChar < ys.flatMap String.utf8EncodeChar
  | [], [], _, _, h => absurd h (List.lt_irrefl [])
  | x :: xs, [], _, _, h => absurd h (List.not_lt_nil _)
  | [], y :: ys, _, hy, _ => by
    rw [List.forall_mem_cons] at hy
    rw [List.flatMap_cons, utf8EncodeChar_of_ascii hy.1]
    exact List.nil_lt_cons _ _
  | x :: xs, y :: ys, hx, hy, h => by
    rw [List.forall_mem_cons] at hx hy
    rw [List.flatMap_cons, List.flatMap_cons, utf8EncodeChar_of_ascii hx.1,
      utf8EncodeChar_of_ascii hy.1, List.singleton_append, List.singleton_append,
      List.cons_lt_cons_iff]
    rcases List.cons_lt_cons_iff.1 h with hlt | ⟨rfl, hlt⟩
    · left
      have hnat : x.toNat < y.toNat := hlt
      rw [UInt8.lt_iff_toNat_lt, UInt8.toNat_ofNat', UInt8.toNat_ofNat']
      omega
    · exact .inr ⟨rfl, flatMap_lt hx.2 hy.2 hlt⟩

theorem bytes_lt {other : String} (h : IsName name) (h' : IsName other) (hlt : name < other) :
    bytes name < bytes other := by
  rw [bytes_eq, bytes_eq]
  exact flatMap_lt (fun c hc => (small_of_nameChar (h.chars c hc)).1)
    (fun c hc => (small_of_nameChar (h'.chars c hc)).1) (String.lt_iff_toList_lt.1 hlt)

/-! ## The listing of a parse -/

variable {s : ScopeStack} {uses : List Token}

theorem lookup?_initial (name : String) : ScopeStack.initial.lookup? name = none := rfl

/-- An entry is found by its key, which is its name. -/
theorem lookup?_entry (h : ScopeStack.Records .initial uses s) {i : String × EntryRef}
    (hi : i ∈ s.innermost.entries) : i.2.name = i.1 ∧ s.lookup? i.2.name = some i.2 := by
  rcases h.entered i hi with hnone | ⟨hname, -, hvisible⟩
  · cases hnone
  · exact ⟨hname, hname ▸ hvisible⟩

/-- The entries are the names that were used. -/
theorem mem_entries_iff (h : ScopeStack.Records .initial uses s) (name : String) :
    (∃ i ∈ s.innermost.entries, i.2.name = name) ↔ ∃ t ∈ uses, t.name = name := by
  constructor
  · rintro ⟨i, hi, rfl⟩
    have hvisible := (h.visible i.2.name).1 (Option.isSome_of_eq_some (lookup?_entry h hi).2)
    rcases hvisible with hsome | hused
    · cases hsome
    · exact hused
  · intro hused
    obtain ⟨e, he⟩ := Option.isSome_iff_exists.1 ((h.visible name).2 (.inr hused))
    have hentry := (h.new name e (lookup?_initial name) he).1
    exact ⟨_, hentry, (lookup?_entry h hentry).1⟩

/-- The lines of an entry are those of the uses of its name. -/
theorem linesOf_entry (h : ScopeStack.Records .initial uses s) {i : String × EntryRef}
    (hi : i ∈ s.innermost.entries) :
    s.linesOf i.2 = (uses.filter (·.name == i.2.name)).map (·.line) := by
  rw [h.lines i.2.name i.2 (lookup?_entry h hi).2]
  rfl

/-- What is listed of the uses of names. -/
structure Lists (uses : List Token) (s : ScopeStack) : Prop where
  /-- No other scope is open than the global one. -/
  level : s.level = 0 ∧ s.innermost.level = 0
  heading : (lines (listing s).toList).take 4 = lines heading.toList
  /-- Under the heading every row is split at its blanks into a name and its lines. -/
  decoded : readTable? (listing s) = some (table s)
  /-- The names strictly increase, so each has but one row. -/
  sorted : (table s).Pairwise fun r r' => bytes r.1 < bytes r'.1
  complete : ∀ name, (∃ r ∈ table s, r.1 = name) ↔ ∃ t ∈ uses, t.name = name
  /-- The lines of a name are those of its uses, in their order. -/
  occurrences : ∀ r ∈ table s, r.2 = (uses.filter (·.name == r.1)).map (·.line)

theorem lists_of_records (h : ScopeStack.Records .initial uses s)
    (hsorted : Scope.Increasing s.innermost.entries) (hnames : ∀ t ∈ uses, IsName t.name) :
    Lists uses s := by
  have hentries : ∀ i ∈ s.innermost.entries, IsName i.2.name := fun i hi => by
    obtain ⟨t, ht, hname⟩ := (mem_entries_iff h i.2.name).1 ⟨i, hi, rfl⟩
    exact hname ▸ hnames t ht
  constructor
  case level => exact ⟨congrArg List.length h.outer, h.level⟩
  case heading => rw [lines_listing hentries, ← length_heading, List.take_left]
  case decoded => exact readTable?_listing hentries
  case sorted =>
    refine List.pairwise_map.2 (hsorted.imp_of_mem fun {i j} hi hj hlt => ?_)
    rw [← (lookup?_entry h hi).1, ← (lookup?_entry h hj).1] at hlt
    exact bytes_lt (hentries i hi) (hentries j hj) hlt
  case complete =>
    intro name
    rw [← mem_entries_iff h]
    simp [table]
  case occurrences => exact List.forall_mem_map.2 fun i hi => linesOf_entry h hi

end CrossReference

open CrossReference PascalBlock.Parser

variable {source source' name name' : String} {tokens tokens' : List Token}

theorem lists_of_parse (h : tokenize source name = .ok tokens) (file : String) :
    Lists (identifiers (consumed tokens (parse tokens file)))
      (parse tokens file).after.scopes := by
  have hreads := readsProgram_parse tokens file
  have hsorted : Scope.Increasing (parse tokens file).after.scopes.innermost.entries := by
    rw [hreads.uses.scopes]
    have hinitial : Scope.Increasing ScopeStack.initial.innermost.entries := List.Pairwise.nil
    exact ScopeStack.increasing_foldl hinitial _
  refine lists_of_records (records_parse tokens file) hsorted fun t ht => ?_
  obtain ⟨hconsumed, hk⟩ := List.mem_filter.1 ht
  exact (lexical_of_tokenize h t (consumed_subset tokens _ hconsumed)).name (eq_of_beq hk)

/-- **The listing of a source shows all names that were read**, and with them the symbol table. -/
theorem listing_determines_the_table (h : tokenize source name = .ok tokens)
    (h' : tokenize source' name' = .ok tokens') (file file' : String) :
    Lists (identifiers (consumed tokens (parse tokens file))) (parse tokens file).after.scopes ∧
      (listing (parse tokens file).after.scopes = listing (parse tokens' file').after.scopes →
        table (parse tokens file).after.scopes = table (parse tokens' file').after.scopes) := by
  have hlists := lists_of_parse h file
  refine ⟨hlists, fun heq => ?_⟩
  have hdecoded := hlists.decoded
  rw [heq, (lists_of_parse h' file').decoded] at hdecoded
  exact (Option.some.inj hdecoded).symm

/-- A block with an assignment of a name to itself, over two lines. -/
def assignSelf : List Token :=
  [⟨.beginWord, "BEGIN", none, 1, ⟨"", 0⟩, ⟨"", 5⟩⟩, ⟨.identifier, "B", none, 1, ⟨"", 6⟩, ⟨"", 7⟩⟩,
    ⟨.becomes, ":=", none, 1, ⟨"", 7⟩, ⟨"", 9⟩⟩, ⟨.identifier, "b", none, 2, ⟨"", 10⟩, ⟨"", 11⟩⟩,
    ⟨.endWord, "END", none, 2, ⟨"", 12⟩, ⟨"", 15⟩⟩, ⟨.dot, ".", none, 2, ⟨"", 15⟩, ⟨"", 16⟩⟩,
    .endAt 2 ⟨"", 16⟩]

/-- A block that is not closed, with no more than the names of two assignments. -/
def nameTwice : List Token :=
  [⟨.beginWord, "begin", none, 1, ⟨"", 0⟩, ⟨"", 5⟩⟩, ⟨.identifier, "b", none, 1, ⟨"", 6⟩, ⟨"", 7⟩⟩,
    ⟨.semicolon, ";", none, 1, ⟨"", 7⟩, ⟨"", 8⟩⟩, ⟨.identifier, "B", none, 2, ⟨"", 9⟩, ⟨"", 10⟩⟩,
    .endAt 2 ⟨"", 10⟩]

theorem assignSelf_listing_determines_the_table :
    Lists (identifiers (consumed assignSelf (parse assignSelf "")))
        (parse assignSelf "").after.scopes ∧
      (listing (parse assignSelf "").after.scopes = listing (parse nameTwice "").after.scopes →
        table (parse assignSelf "").after.scopes = table (parse nameTwice "").after.scopes) := by
  have h : tokenize "BEGIN B:=\nb END." "" = .ok assignSelf := by cbv
  have h' : tokenize "begin b;\nB" "" = .ok nameTwice := by cbv
  exact listing_determines_the_table h h' "" ""

end PascalBlock
