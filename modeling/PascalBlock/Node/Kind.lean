import PascalBlock.Token.Kind

/-!
# Kinds of tree node

Statements, operators and operands. An operator's kind follows from its token, and leads back to the
symbol it is written with.
-/

namespace PascalBlock

inductive NodeKind where
  | compound | assign | noOp
  | eq | ne | lt | le | gt | ge | not
  | add | subtract | or | negate
  | multiply | integerDivide | floatDivide | mod | and
  | variable | integerConstant | realConstant | stringConstant
deriving DecidableEq, Repr

namespace NodeKind

/-- Every kind with its name in listings. -/
def names : List (NodeKind × String) := [
  (compound, "COMPOUND"), (assign, "ASSIGN"), (noOp, "NO_OP"), (eq, "EQ"), (ne, "NE"), (lt, "LT"),
  (le, "LE"), (gt, "GT"), (ge, "GE"), (not, "NOT"), (add, "ADD"), (subtract, "SUBTRACT"),
  (or, "OR"), (negate, "NEGATE"), (multiply, "MULTIPLY"), (integerDivide, "INTEGER_DIVIDE"),
  (floatDivide, "FLOAT_DIVIDE"), (mod, "MOD"), (and, "AND"), (.variable, "VARIABLE"),
  (integerConstant, "INTEGER_CONSTANT"), (realConstant, "REAL_CONSTANT"),
  (stringConstant, "STRING_CONSTANT")]

/-- The name of a kind. -/
def name (k : NodeKind) : String := (names.lookup k).getD ""

/-- The kind of a name. -/
def ofName? (s : String) : Option NodeKind := (names.find? (·.2 == s)).map (·.1)

/-- How a binary operator is written. -/
def binarySymbol? : NodeKind → Option String
  | eq => some "="
  | ne => some "<>"
  | lt => some "<"
  | le => some "<="
  | gt => some ">"
  | ge => some ">="
  | add => some "+"
  | subtract => some "-"
  | or => some "OR"
  | multiply => some "*"
  | floatDivide => some "/"
  | integerDivide => some "DIV"
  | mod => some "MOD"
  | and => some "AND"
  | _ => none

end NodeKind

namespace TokenKind

/-- What a relational operator builds. -/
def relational? : TokenKind → Option NodeKind
  | equals => some .eq
  | notEquals => some .ne
  | lessThan => some .lt
  | lessEquals => some .le
  | greaterThan => some .gt
  | greaterEquals => some .ge
  | _ => none

/-- What an additive operator between two terms builds. -/
def additive? : TokenKind → Option NodeKind
  | plus => some .add
  | minus => some .subtract
  | orWord => some .or
  | _ => none

/-- What a multiplicative operator between two factors builds. -/
def multiplicative? : TokenKind → Option NodeKind
  | star => some .multiply
  | slash => some .floatDivide
  | divWord => some .integerDivide
  | modWord => some .mod
  | andWord => some .and
  | _ => none

end TokenKind

end PascalBlock
