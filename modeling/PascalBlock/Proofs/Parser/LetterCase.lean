import PascalBlock.Proofs.Parser.Containment
import PascalBlock.Proofs.Token.LetterCase

/-!
# Parses of tokens in small letters

A parse looks at the spelling of a token in two places only: in the name of an identifier, in which
case does not count, and in what it flags as unexpected. So a reading commutes with putting all its
tokens into small letters (`ReadsOperand.folded`, `ReadsStatement.folded`, `ReadsProgram.folded`):
it builds the same nodes, and what it flags is put into small letters with the tokens.
-/

namespace PascalBlock

/-! ## Small letters -/

/-- A piece of the source that was not expected is put into small letters. -/
def Cause.folded : Cause → Cause
  | unexpectedToken text => unexpectedToken (Text.folded text)
  | cause => cause

/-- The diagnostic with its token in small letters. -/
def Diagnostic.folded (d : Diagnostic) : Diagnostic :=
  ⟨⟨d.error.cause.folded, d.error.position⟩, d.token.folded, d.component⟩

namespace Cursor

/-- At the same place in the same tokens in small letters. -/
def folded (c : Cursor) : Cursor :=
  ⟨c.ahead.map Token.folded, c.last.folded, c.count, c.last_kind, by simp [c.count_eq]⟩

theorem folded_current (c : Cursor) : c.folded.current = c.current.folded := by
  cases c with
  | mk ahead => cases ahead <;> rfl

theorem folded_advance (c : Cursor) : c.folded.advance = c.advance.folded :=
  eq_of_ahead List.map_tail.symm rfl

theorem folded_ofTokens (ts : List Token) {e : Token} (h : e.kind = .endOfText) (file : String) :
    ofTokens ((ts ++ [e]).map Token.folded) file = (ofTokens (ts ++ [e]) file).folded := by
  have hfolded : e.folded.kind = .endOfText := h
  rw [List.map_append, List.map_singleton, ofTokens_concat _ hfolded, ofTokens_concat ts h]
  exact eq_of_ahead rfl rfl

end Cursor

namespace Parser

variable {p q : Parser} {ts : List Token} {ds : List Diagnostic} {ns : List Node} {cause : Cause}
  {component : Component}

/-- The state with all tokens in small letters, those that were flagged too. -/
def folded (p : Parser) : Parser :=
  { p with
    cursor := p.cursor.folded
    log := ⟨p.log.entries.map Diagnostic.folded⟩ }

/-! ## Steps -/

@[simp] theorem folded_deeper (p : Parser) : p.folded.deeper = p.deeper.folded := rfl
@[simp] theorem folded_exitNesting (p : Parser) : p.folded.exitNesting = p.exitNesting.folded := rfl
@[simp] theorem folded_nesting (p : Parser) : p.folded.nesting = p.nesting := rfl

@[simp] theorem folded_record (p : Parser) (e : EntryRef) (line : UInt32) :
    p.folded.record e line = (p.record e line).folded := rfl

@[simp] theorem folded_current (p : Parser) : p.folded.current = p.current.folded :=
  p.cursor.folded_current

@[simp] theorem folded_kind (p : Parser) : p.folded.kind = p.kind := by
  rw [← current_kind, folded_current]
  rfl

@[simp] theorem folded_advance (p : Parser) : p.folded.advance = p.advance.folded := by
  simp only [advance, folded, Cursor.folded_advance]

@[simp] theorem folded_startLine (p : Parser) : p.folded.startLine = p.startLine := by
  simp only [startLine, folded_current, Token.folded]

theorem folded_diagnostic (p : Parser) (cause : Cause) (component : Component) :
    p.folded.diagnostic cause.folded component = (p.diagnostic cause component).folded := by
  rw [diagnostic, folded_current]
  rfl

theorem folded_flag (p : Parser) (cause : Cause) (component : Component) :
    p.folded.flag cause.folded component = (p.flag cause component).folded := by
  simp only [flag, DiagnosticLog.flag, folded_current]
  simp only [folded, Array.map_push]
  rfl

theorem folded_diagnostic_self (h : cause.folded = cause) (p : Parser) (component : Component) :
    p.folded.diagnostic cause component = (p.diagnostic cause component).folded := by
  rw [← folded_diagnostic, h]

theorem folded_flag_self (h : cause.folded = cause) (p : Parser) (component : Component) :
    p.folded.flag cause component = (p.flag cause component).folded := by
  rw [← folded_flag, h]

theorem folded_flagUnexpected (p : Parser) (component : Component) :
    p.folded.flagUnexpected component = (p.flagUnexpected component).folded := by
  rw [flagUnexpected, flagUnexpected, ← folded_flag, folded_current]
  rfl

theorem folded_unexpected (p : Parser) (component : Component) :
    p.folded.diagnostic (.unexpectedToken p.folded.current.text) component =
      (p.diagnostic (.unexpectedToken p.current.text) component).folded := by
  rw [← folded_diagnostic, folded_current]
  rfl

/-- A name is found and entered in any case. -/
theorem folded_identifier (p : Parser) (known : Bool) : identifier known p.folded =
    ⟨(identifier known p).value, (identifier known p).after.folded⟩ := by
  have hscopes : p.folded.scopes = p.scopes := rfl
  have hresolve : p.folded.resolve known p.current.name =
      ⟨(p.resolve known p.current.name).value, (p.resolve known p.current.name).after.folded⟩ := by
    unfold resolve
    rw [hscopes]
    cases p.scopes.lookup? p.current.name with
    | some e => rfl
    | none =>
      cases known with
      | false => rfl
      | true =>
        rw [if_pos rfl, if_pos rfl, folded_flag_self rfl]
        rfl
  unfold identifier
  rw [folded_current, Token.name_folded, hresolve]
  simp only [folded_record, folded_advance]
  rfl

theorem folded_unknownName (p : Parser) :
    p.folded.unknownName = p.unknownName.map Diagnostic.folded := by
  have hscopes : p.folded.scopes = p.scopes := rfl
  unfold unknownName
  rw [folded_current, Token.name_folded, hscopes]
  cases p.scopes.lookup? p.current.name with
  | some e => rfl
  | none => exact congrArg (fun d => [d]) (p.folded_diagnostic (.identifierUndefined _) .expression)

theorem folded_constant (p : Parser) (kind : NodeKind) :
    (constant kind p.folded).value = (constant kind p).value := by
  rw [constant_value, constant_value, folded_current]
  rfl

/-- What is flagged tells no piece of the source. -/
theorem Expects.folded {kind : TokenKind} (h : Expects kind cause component p ts ds q)
    (hcause : cause.folded = cause) : Expects kind cause component p.folded
      (ts.map Token.folded) (ds.map Diagnostic.folded) q.folded := by
  cases h with
  | found hk =>
    have hread := @Expects.found kind cause component p.folded (by rwa [folded_kind])
    rwa [folded_current, folded_advance] at hread
  | missing hk =>
    have hread := @Expects.missing kind cause component p.folded (by rwa [folded_kind])
    rwa [folded_diagnostic_self hcause, folded_flag_self hcause] at hread

/-! ## Expressions -/

/-- **An expression is read alike in small letters**. -/
theorem ReadsOperand.folded {phrase : Phrase} (h : ReadsOperand phrase p ts ds ns q) :
    ReadsOperand phrase p.folded (ts.map Token.folded) (ds.map Diagnostic.folded) ns
      q.folded := by
  induction h with
  | @identifier p hk =>
    have hread := ReadsOperand.identifier (p := p.folded) (by rwa [folded_kind])
    rwa [folded_identifier, folded_unknownName, folded_current] at hread
  | @constant p kind hk =>
    have hread := ReadsOperand.constant (p := p.folded) (by rwa [folded_kind])
    rwa [folded_constant, folded_current, folded_advance] at hread
  | @tooDeep p hk hn =>
    have hread := ReadsOperand.tooDeep (p := p.folded) (by rwa [folded_kind]) hn
    rwa [folded_current, folded_diagnostic_self rfl, folded_flag_self rfl, folded_advance] at hread
  | @unexpected p hk =>
    have hread := ReadsOperand.unexpected (p := p.folded) (by rwa [folded_kind])
    rwa [folded_unexpected, folded_flagUnexpected] at hread
  | @negation p q ts ds ns hk hn _ ih =>
    have hread := ReadsOperand.negation (p := p.folded) (by rwa [folded_kind]) hn
      (by simpa using ih)
    simpa using hread
  | @parentheses p q r ts ds ns us es hk hn _ close ih =>
    have hread := ReadsOperand.parentheses (p := p.folded) (q := q.folded)
      (by rwa [folded_kind]) hn (by simpa using ih) (close.folded rfl)
    simpa using hread
  | @plus p q ts ds ns hk _ ih =>
    have hread := ReadsOperand.plus (p := p.folded) (by rwa [folded_kind]) (by simpa using ih)
    simpa using hread
  | @minus p q ts ds ns hk _ ih =>
    have hread := ReadsOperand.minus (p := p.folded) (by rwa [folded_kind]) (by simpa using ih)
    simpa using hread
  | unsigned hplus hminus _ ih =>
    exact .unsigned (by rwa [folded_kind]) (by rwa [folded_kind]) ih
  | chain _ _ ih ih' =>
    rw [List.map_append, List.map_append]
    exact .chain ih ih'
  | stop hk => exact .stop (by rwa [folded_kind])
  | @link s op p q r ls ts ds rs us es ns hk _ _ ih ih' =>
    have hread := ReadsOperand.link (p := p.folded) (by rwa [folded_kind])
      (by simpa using ih) ih'
    simpa using hread
  | simple _ hk ih => exact .simple ih (by rwa [folded_kind])
  | relation _ hk _ ih ih' =>
    have hread := ReadsOperand.relation ih (by rwa [folded_kind]) (by simpa using ih')
    simpa using hread

/-! ## Statements and programs -/

theorem Separates.folded (h : Separates p ts ds q) :
    Separates p.folded (ts.map Token.folded) (ds.map Diagnostic.folded) q.folded := by
  cases h with
  | semicolon hk =>
    have hread := Separates.semicolon (p := p.folded) (by rwa [folded_kind])
    rwa [folded_current, folded_advance] at hread
  | missing hk =>
    have hread := Separates.missing (p := p.folded) (by rwa [folded_kind])
    rwa [folded_diagnostic_self rfl, folded_flag_self rfl] at hread
  | closing hk => exact .closing (by rwa [folded_kind])
  | stray hs hi hk =>
    have hread := Separates.stray (p := p.folded) (by rwa [folded_kind]) (by rwa [folded_kind])
      (by rwa [folded_kind])
    rwa [folded_unexpected, folded_flagUnexpected, folded_current, folded_advance] at hread

/-- **A statement is read alike in small letters**. -/
theorem ReadsStatement.folded {clause : Clause} (h : ReadsStatement clause p ts ds ns q) :
    ReadsStatement clause p.folded (ts.map Token.folded) (ds.map Diagnostic.folded) ns
      q.folded := by
  induction h with
  | @assignment p q r ts ds us es ns hk sign value =>
    have hread := ReadsStatement.assignment (p := p.folded) (q := q.folded)
      (by rwa [folded_kind]) (by rw [folded_identifier]; exact sign.folded rfl) value.folded
    rw [folded_identifier] at hread
    simpa using hread
  | @tooDeep p hk hn =>
    have hread := ReadsStatement.tooDeep (p := p.folded) (by rwa [folded_kind]) hn
    rwa [folded_current, folded_diagnostic_self rfl, folded_flag_self rfl, folded_advance,
      folded_startLine] at hread
  | @compound p q r ts ds ns us es hk hn _ close ih =>
    have hread := ReadsStatement.compound (p := p.folded) (by rwa [folded_kind]) hn
      (by simpa using ih) (close.folded rfl)
    simpa using hread
  | @empty p hb hi =>
    have hread := ReadsStatement.empty (p := p.folded) (by rwa [folded_kind])
      (by rwa [folded_kind])
    rwa [folded_startLine] at hread
  | finish hk => exact .finish (by rwa [folded_kind])
  | round hk _ separator _ ih ih' =>
    have hread := ReadsStatement.round (by rwa [folded_kind]) ih separator.folded ih'
    simpa using hread

/-- **A program is read alike in small letters**. -/
theorem ReadsProgram.folded (h : ReadsProgram p ts ds ns q) :
    ReadsProgram p.folded (ts.map Token.folded) (ds.map Diagnostic.folded) ns q.folded := by
  cases h with
  | nothing hk => exact .nothing (by rwa [folded_kind])
  | block hk root period =>
    have hread := ReadsProgram.block (by rwa [folded_kind]) root.folded (period.folded rfl)
    simpa using hread
  | noBlock hk hb period =>
    have hread := ReadsProgram.noBlock (p := p.folded) (by rwa [folded_kind])
      (by rwa [folded_kind]) (by rw [folded_flagUnexpected]; exact period.folded rfl)
    rwa [folded_unexpected] at hread

end Parser

/-! ## Whole parses -/

open PascalBlock.Parser

/-- Tokens in small letters are parsed as they are, but for the letters. -/
theorem parse_folded (ts : List Token) {e : Token} (h : e.kind = .endOfText) (file : String) :
    parse ((ts ++ [e]).map Token.folded) file =
      ⟨(parse (ts ++ [e]) file).value, (parse (ts ++ [e]) file).after.folded⟩ := by
  have hstart : (ofTokens ((ts ++ [e]).map Token.folded) file).withStatements =
      (ofTokens (ts ++ [e]) file).withStatements.folded := by
    simp only [ofTokens, withStatements, register, Cursor.folded_ofTokens ts h file, folded,
      DiagnosticLog.empty, List.map_toArray, List.map_nil]
  have hread := readsProgram_parse ((ts ++ [e]).map Token.folded) file
  rw [hstart] at hread
  obtain ⟨-, -, hvalue, hafter⟩ := hread.unique (readsProgram_parse (ts ++ [e]) file).folded
  have hvalue := congrArg List.head? hvalue
  rw [Option.head?_toList, Option.head?_toList] at hvalue
  rw [← hvalue, ← hafter]

end PascalBlock
