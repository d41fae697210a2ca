import PascalBlock.Parser.State

/-!
# Expressions

    expression = simple [ relational simple ]
    simple     = [ "+" | "-" ] term { additive term }
    term       = factor { multiplicative factor }
    factor     = identifier | constant | "NOT" factor | "(" expression ")"

Each reader leaves the cursor on the first token behind what it has read. An operand that could not
be read is absent from the tree; that was flagged then. The readers are given the one for a factor
one level deeper, and `factorAt` ties them together.
-/

namespace PascalBlock.Parser

/-- Reads an operand, which may turn out to be absent. -/
abbrev Operand := Parser → Parsed (Option Node)

/-! ## Operands -/

/-- The identifier of a name. An unknown name is entered into the innermost scope, and flagged first
where it had to be known. -/
def resolve (p : Parser) (mustBeKnown : Bool) (name : String) : Parsed EntryRef :=
  match p.scopes.lookup? name with
  | some e => ⟨e, p⟩
  | none =>
    let flagged := if mustBeKnown then p.flag (.identifierUndefined name) .expression else p
    flagged.enter name

/-- The variable that the current token names. Its line is recorded. -/
def identifier (mustBeKnown : Bool) (p : Parser) : Parsed Node :=
  let found := p.resolve mustBeKnown p.current.name
  let recorded := found.after.record found.value p.current.line
  ⟨(Node.leaf .variable).setAttribute .id (.entry found.value), recorded.advance⟩

/-- The constant under the cursor. -/
def constant (kind : NodeKind) (p : Parser) : Parsed Node :=
  let node := Node.leaf kind
  ⟨(p.current.literal.map fun v => node.setAttribute .value (.literal v)).getD node, p.advance⟩

/-! ## Operators -/

/-- Operands to the right of `left` as long as an operator comes before each, in at most `fuel`
rounds; the tree leans to the left. -/
def chain (operator? : TokenKind → Option NodeKind) (operand : Operand) :
    Nat → Option Node → Operand
  | 0, left, p => ⟨left, p⟩
  | fuel + 1, left, p =>
    match operator? p.kind with
    | none => ⟨left, p⟩
    | some op =>
      let right := operand p.advance
      chain operator? operand fuel (some (.ofChildren op [left, right.value])) right.after

/-- Every round of the chain consumes its operator, so the tokens ahead bound the rounds. -/
def chainOf (operator? : TokenKind → Option NodeKind) (operand : Operand)
    (first : Parsed (Option Node)) : Parsed (Option Node) :=
  chain operator? operand first.after.cursor.count first.value first.after

def termWith (factor : Operand) : Operand := fun p =>
  chainOf TokenKind.multiplicative? factor (factor p)

/-- The first term with its sign. A plus builds nothing. -/
def signedWith (factor : Operand) : Operand := fun p =>
  if p.kind = .minus then
    let term := termWith factor p.advance
    ⟨some (.ofChildren .negate [term.value]), term.after⟩
  else termWith factor (if p.kind = .plus then p.advance else p)

def simpleWith (factor : Operand) : Operand := fun p =>
  chainOf TokenKind.additive? (termWith factor) (signedWith factor p)

/-- Only one relational operator is read; a second one is left where it is. -/
def expressionWith (factor : Operand) : Operand := fun p =>
  let left := simpleWith factor p
  match left.after.kind.relational? with
  | none => left
  | some op =>
    let right := simpleWith factor left.after.advance
    ⟨some (.ofChildren op [left.value, right.value]), right.after⟩

/-! ## Factors -/

/-- `NOT` and the factor behind it. -/
def negationWith (deeper : Operand) : Operand := fun p =>
  let operand := deeper p.advance
  ⟨some (.ofChildren .not [operand.value]), operand.after.exitNesting⟩

/-- An expression in parentheses, which leave no trace in the tree. -/
def parenthesesWith (deeper : Operand) : Operand := fun p =>
  let inner := expressionWith deeper p.advance
  ⟨inner.value, inner.after.exitNesting.expect .rightParen .missingRightParen .expression⟩

def factorWith (deeper : Operand) : Operand := fun p =>
  match p.kind with
  | .identifier => let v := identifier true p; ⟨some v.value, v.after⟩
  | .integer => let c := constant .integerConstant p; ⟨some c.value, c.after⟩
  | .real => let c := constant .realConstant p; ⟨some c.value, c.after⟩
  | .string => let c := constant .stringConstant p; ⟨some c.value, c.after⟩
  | .notWord => p.nested .expression none (negationWith deeper)
  | .leftParen => p.nested .expression none (parenthesesWith deeper)
  | _ => ⟨none, p.flagUnexpected .expression⟩

/-- A factor where `levels` more levels may be opened. -/
def factorAt : Nat → Operand
  | 0 => factorWith fun p => ⟨none, p⟩
  | levels + 1 => factorWith (factorAt levels)

def factor : Operand := fun p => factorAt p.levelsLeft p

def term : Operand := fun p => termWith (factorAt p.levelsLeft) p

def simpleExpression : Operand := fun p => simpleWith (factorAt p.levelsLeft) p

def expression : Operand := fun p => expressionWith (factorAt p.levelsLeft) p

end PascalBlock.Parser
