import PascalBlock.Error
import PascalBlock.Token.Basic

/-!
# Diagnostics

An error in a parse is flagged on a token by the part of the grammar that noticed it. Flagging never
stops the parse; the log keeps all that was flagged, in order.
-/

namespace PascalBlock

/-- The part of the grammar that noticed an error. -/
inductive Component where
  | program | statement | compound | assignment | expression
deriving DecidableEq, Repr

namespace Component

/-- Every component with its name. -/
def names : List (Component × String) := [
  (program, "Program"), (statement, "Statement"), (compound, "Compound"),
  (assignment, "Assignment"), (expression, "Expression")]

/-- The name of a component. -/
def name (c : Component) : String := (names.lookup c).getD ""

/-- The component of a name. -/
def ofName? (s : String) : Option Component := (names.find? (·.2 == s)).map (·.1)

end Component

structure Diagnostic where
  error : Error
  token : Token
  component : Component
deriving DecidableEq, Repr

/-- All diagnostics of a parse, in the order in which they were flagged. -/
structure DiagnosticLog where
  entries : Array Diagnostic
deriving DecidableEq, Repr

namespace DiagnosticLog

def empty : DiagnosticLog := ⟨#[]⟩

/-- Flags a cause at the start of a token. -/
def flag (l : DiagnosticLog) (token : Token) (cause : Cause) (component : Component) :
    DiagnosticLog :=
  ⟨l.entries.push ⟨⟨cause, token.start⟩, token, component⟩⟩

def count (l : DiagnosticLog) : Nat := l.entries.size

/-- What was flagged, without the places. -/
def causes (l : DiagnosticLog) : List Cause := l.entries.toList.map (·.error.cause)

end DiagnosticLog

end PascalBlock
