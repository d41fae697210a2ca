import PascalBlock.Text.Quoted

/-!
# Errors

What can be wrong with a source, and how it is said. An error is a cause and the place where it
showed.
-/

namespace PascalBlock

/-- What is wrong. -/
inductive Cause where
  | unrecognisedToken (text : String)
  | numberParse (text : String)
  | identifierUndefined (name : String)
  | missingRightParen
  | unexpectedToken (text : String)
  | missingEnd
  | missingSemicolon
  | missingBecomes
  | missingPeriod
  | nestingTooDeep
deriving DecidableEq, Repr

namespace Cause

/-- The heading under which a cause is reported. -/
def name : Cause → String
  | unrecognisedToken _ => "UnrecognisedToken"
  | numberParse _ => "NumberParseError"
  | identifierUndefined _ => "IdentifierUndefined"
  | missingRightParen => "MissingRightParen"
  | unexpectedToken _ => "UnexpectedToken"
  | missingEnd => "MissingEnd"
  | missingSemicolon => "MissingSemicolon"
  | missingBecomes => "MissingColonEquals"
  | missingPeriod => "MissingPeriod"
  | nestingTooDeep => "NestingTooDeep"

/-- The cause in words; a piece of the source is quoted. -/
def message : Cause → String
  | unrecognisedToken text => "unrecognised token: " ++ Text.quoted text
  | numberParse text => "error parsing number: " ++ Text.quoted text
  | identifierUndefined name => "undefined identifier " ++ Text.quoted name
  | missingRightParen => "missing )"
  | unexpectedToken text => "unexpected token: " ++ Text.quoted text
  | missingEnd => "missing END"
  | missingSemicolon => "missing ;"
  | missingBecomes => "missing :="
  | missingPeriod => "missing ."
  | nestingTooDeep => "nesting too deep"

/-- What to look for; a piece of the source stands in it as it is. -/
def tip? : Cause → Option String
  | unrecognisedToken _ => none
  | numberParse text => some ("Invalid number: `" ++ text ++ "`, is it above the integer limit?")
  | identifierUndefined name => some ("Identifier `" ++ name ++ "` is not declared")
  | missingRightParen => some "Missing `)` to close the expression"
  | unexpectedToken text => some ("Unexpected token: `" ++ text ++ "`")
  | missingEnd => some "Missing `END` to close the block"
  | missingSemicolon => some "Missing `;`, statements must be separated by semicolons"
  | missingBecomes => some "Missing `:=` in assignment"
  | missingPeriod => some "Missing `.` after the program block"
  | nestingTooDeep => some "Too many nested parentheses, NOT operators or blocks"

end Cause

/-- A byte offset in a named source. An offset is a word of 32 bits. -/
structure Position where
  file : String
  offset : UInt32
deriving DecidableEq, Repr

/-- The position of what stands in no source. -/
def Position.nowhere : Position := ⟨"<null>", 0⟩

structure Error where
  cause : Cause
  position : Position
deriving DecidableEq, Repr

/-- The cause in words, and where. -/
def Error.message (e : Error) : String :=
  e.cause.message ++ " at " ++ e.position.file ++ ":" ++ toString e.position.offset.toNat

end PascalBlock
