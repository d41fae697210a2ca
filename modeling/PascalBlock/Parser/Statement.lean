import PascalBlock.Parser.Expression

/-!
# Statements

    program    = compound "."
    compound   = "BEGIN" statement { ";" statement } "END"
    statement  = compound | assignment | empty
    assignment = identifier ":=" expression

The kind of its first token tells what reads a statement. Whatever goes wrong, a list of statements
goes on behind the next semicolon at the latest.
-/

namespace PascalBlock

namespace Parser

/-- The current statement as it stands, without a token read. -/
def emptyStatement (p : Parser) : Parsed Node := ⟨.leaf .noOp, p⟩

/-- A statement, read by what `table` has for its first token; a token that starts no statement
stays where it is. The node gets the line of the first token. -/
def statementBy (table : TokenKind → Option (Parser → Parsed Node)) (p : Parser) : Parsed Node :=
  let read := ((table p.kind).getD emptyStatement) p
  ⟨read.value.setAttribute .line (.line p.current.line), read.after⟩

/-! ## Lists of statements -/

/-- Past the separator behind a statement. A missing one is flagged where an identifier shows that
the next statement begins; any other token that neither separates nor ends the list is flagged and
dropped. -/
def separate (terminator : TokenKind) (p : Parser) : Parser :=
  if p.kind = .semicolon then p.advance
  else if p.kind = .identifier then p.flag .missingSemicolon .statement
  else if p.kind = terminator ∨ p.kind = .endOfText then p
  else (p.flagUnexpected .statement).advance

/-- One statement and its separator. -/
def statementRound (statement : Parser → Parsed Node) (terminator : TokenKind) (p : Parser) :
    Parsed Node :=
  let read := statement p
  ⟨read.value, read.after.separate terminator⟩

/-- Statements up to the terminator or the end of the text, in at most `fuel` rounds. -/
def statementRounds (statement : Parser → Parsed Node) (terminator : TokenKind) :
    Nat → Parser → Parsed (List Node)
  | 0, p => ⟨[], p⟩
  | fuel + 1, p =>
    if p.kind = .endOfText ∨ p.kind = terminator then ⟨[], p⟩
    else
      let first := statementRound statement terminator p
      let others := statementRounds statement terminator fuel first.after
      ⟨first.value :: others.value, others.after⟩

/-- Statements and their terminator. Every round consumes a token, so the tokens ahead bound the
rounds. -/
def statementList (statement : Parser → Parsed Node) (terminator : TokenKind) (cause : Cause)
    (component : Component) (p : Parser) : Parsed (List Node) :=
  let list := statementRounds statement terminator p.cursor.count p
  ⟨list.value, list.after.expect terminator cause component⟩

/-! ## The statements -/

/-- A block, whose first token is not looked at. A block that lies too deep is an empty
statement. -/
def compoundWith (statement : Parser → Parsed Node) (p : Parser) : Parsed Node :=
  p.nested .compound (.leaf .noOp) fun p =>
    let list := statementList statement .endWord .missingEnd .compound p.advance
    ⟨.mk .compound .empty list.value, list.after.exitNesting⟩

/-- An assignment to the variable that the current token names, known or not. -/
def assignment (p : Parser) : Parsed Node :=
  let target := identifier false p
  let value := expression (target.after.expect .becomes .missingBecomes .assignment)
  ⟨.ofChildren .assign [some target.value, value.value], value.after⟩

/-- On to the next semicolon, `END` or end of text. -/
def skipStatement : Nat → Parser → Parser
  | 0, p => p
  | fuel + 1, p =>
    if p.kind = .semicolon ∨ p.kind = .endWord ∨ p.kind = .endOfText then p
    else skipStatement fuel p.advance

/-- A statement whose tokens are skipped, as an assignment of nothing to nothing. -/
def skipped (p : Parser) : Parsed Node := ⟨.leaf .assign, skipStatement p.cursor.count p⟩

/-- What a handler reads, where `block` reads a block. -/
def runHandler (block : Parser → Parsed Node) : Handler → Parser → Parsed Node
  | .compound => block
  | .assignment => assignment
  | .skip => skipped

/-- A statement of one of the known sorts. -/
def statementWith (block : Parser → Parsed Node) (p : Parser) : Parsed Node :=
  statementBy (fun kind => (p.handlers.lookup kind).map (runHandler block)) p

/-- A statement where `levels` more levels may be opened. -/
def statementAt : Nat → Parser → Parsed Node
  | 0 => statementWith (compoundWith emptyStatement)
  | levels + 1 => statementWith (compoundWith (statementAt levels))

def statement (p : Parser) : Parsed Node := statementAt p.levelsLeft p

def compound (p : Parser) : Parsed Node := compoundWith (statementAt (p.levelsLeft - 1)) p

/-! ## The program -/

/-- A block, which `statement` reads, and the period behind it; nothing at all is a program too. -/
def programWith (statement : Parser → Parsed Node) (p : Parser) : Parsed (Option Node) :=
  if p.atEnd then ⟨none, p⟩
  else
    let root : Parsed (Option Node) :=
      if p.kind = .beginWord then
        let block := statement p
        ⟨some block.value, block.after⟩
      else ⟨none, p.flagUnexpected .program⟩
    ⟨root.value, root.after.expect .dot .missingPeriod .program⟩

def program (p : Parser) : Parsed (Option Node) := programWith statement p

end Parser

/-- Parses tokens as a program. -/
def parse (tokens : List Token) (file : String) : Parsed (Option Node) :=
  (Parser.ofTokens tokens file).withStatements.program

/-- Parses tokens as an expression. -/
def parseExpression (tokens : List Token) (file : String) : Parsed (Option Node) :=
  (Parser.ofTokens tokens file).withStatements.expression

end PascalBlock
