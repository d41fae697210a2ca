import PascalBlock.Diagnostic
import PascalBlock.Node.Basic
import PascalBlock.Token.Cursor

/-!
# The state of a parse

The cursor, the statements that are known, the open scopes, what was flagged so far, and how many
levels of parentheses, `NOT` and blocks are open. In the scopes of a parse every reference has its
name as its key.
-/

namespace PascalBlock

/-- What reads a statement that starts with a certain kind of token. -/
inductive Handler where
  /-- A block of statements. -/
  | compound
  | assignment
  /-- A statement that is only skipped. -/
  | skip
deriving DecidableEq, Repr

structure Parser where
  cursor : Cursor
  handlers : List (TokenKind × Handler)
  scopes : ScopeStack
  log : DiagnosticLog
  nesting : Nat
  keyed : scopes.Keyed
deriving DecidableEq

/-- What was read, and the state after it. -/
structure Parsed (α : Type) where
  value : α
  after : Parser

namespace Parser

/-- The most levels that may be open at once. -/
def maxNesting : Nat := 128

/-- At the first of `tokens`, with no statement known. -/
def ofTokens (tokens : List Token) (file : String) : Parser :=
  ⟨.ofTokens tokens file, [], .initial, .empty, 0, ScopeStack.keyed_initial⟩

/-- The token under the cursor. -/
def current (p : Parser) : Token := p.cursor.current

def kind (p : Parser) : TokenKind := p.cursor.kind

/-- Whether the end of the text is reached. -/
def atEnd (p : Parser) : Bool := p.cursor.atEnd

/-- On to the next token. -/
def advance (p : Parser) : Parser := { p with cursor := p.cursor.advance }

/-- Flags a cause on the current token. -/
def flag (p : Parser) (cause : Cause) (component : Component) : Parser :=
  { p with log := p.log.flag p.current cause component }

/-- Flags the current token as one that does not belong here. -/
def flagUnexpected (p : Parser) (component : Component) : Parser :=
  p.flag (.unexpectedToken p.current.text) component

/-- Past a token of the kind that must come now; another one is flagged and stays. -/
def expect (p : Parser) (kind : TokenKind) (cause : Cause) (component : Component) : Parser :=
  if p.kind = kind then p.advance else p.flag cause component

/-- Opens one more level, if there may be one more; else that is flagged. -/
def enterNesting (p : Parser) (component : Component) : Parsed Bool :=
  if p.nesting < maxNesting then ⟨true, { p with nesting := p.nesting + 1 }⟩
  else ⟨false, p.flag .nestingTooDeep component⟩

def exitNesting (p : Parser) : Parser := { p with nesting := p.nesting - 1 }

/-- How many levels may still be opened. -/
def levelsLeft (p : Parser) : Nat := maxNesting - p.nesting

/-- Reads `body` one level deeper. Beyond the limit the current token is dropped, and `otherwise` is
the outcome. -/
def nested {α : Type} (p : Parser) (component : Component) (otherwise : α)
    (body : Parser → Parsed α) : Parsed α :=
  let opened := p.enterNesting component
  if opened.value then body opened.after else ⟨otherwise, opened.after.advance⟩

/-! ## Names -/

/-- Enters a name into the innermost scope. -/
def enter (p : Parser) (name : String) : Parsed EntryRef :=
  ⟨(p.scopes.enter name).1,
    { p with scopes := (p.scopes.enter name).2, keyed := p.keyed.enter name }⟩

/-- Records a line for an identifier. -/
def record (p : Parser) (e : EntryRef) (line : UInt32) : Parser :=
  { p with scopes := p.scopes.record e line, keyed := p.keyed.record e line }

/-! ## Known statements -/

/-- Statements that start with a token of this kind are read by the handler from now on. -/
def register (p : Parser) (kind : TokenKind) (handler : Handler) : Parser :=
  { p with handlers := (kind, handler) :: p.handlers.filter (·.1 ≠ kind) }

/-- The names of the kinds that start a statement, in increasing order. -/
def statementStarts (p : Parser) : List String :=
  (p.handlers.map (·.1.name)).mergeSort (· ≤ ·)

/-- Blocks start with `BEGIN`, assignments with an identifier. -/
def withStatements (p : Parser) : Parser :=
  (p.register .beginWord .compound).register .identifier .assignment

end Parser

end PascalBlock
