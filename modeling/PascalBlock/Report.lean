import PascalBlock.Error
import PascalBlock.Text.Line

/-!
# Error reports

An error as a reader sees it: what is wrong, in which file, and the source line with a caret under
the place. The line is shown without the blanks and tabs it starts with.
-/

namespace PascalBlock.Report

/-- The cause with its tip, and the file. -/
def heading (e : Error) : String :=
  "Error: " ++ e.cause.name ++ (e.cause.tip?.map fun tip => " (" ++ tip ++ ")").getD "" ++
    "\n-> " ++ e.position.file ++ "\n"

/-- A blank or a tab. -/
def isIndent (c : Char) : Bool := c == ' ' || c == '\t'

/-- The empty margin beside a line number of a width. -/
def margin (width : Nat) : String := String.ofList (List.replicate (width + 1) ' ') ++ "|"

/-- The caret behind a dash for every byte of the shown line before it. -/
def caret (dashes : Nat) : String := String.ofList (List.replicate dashes '-') ++ "^"

/-- The source line beside its number, and the caret under it. -/
def excerpt (line : Text.Line) : String :=
  let number := toString line.number
  let removed := (line.text.takeWhile isIndent).length
  margin number.length ++ "\n" ++
    number ++ " | " ++ String.ofList (Text.trimEnd (line.text.dropWhile isIndent)) ++ "\n" ++
    margin number.length ++ " " ++ caret (line.offset - removed) ++ "\n"

/-- The report of an error in a source. There is no excerpt where the source has no such place. -/
def render (e : Error) (source : String) : String :=
  heading e ++ ((Text.lineAt source e.position.offset.toNat).map excerpt).getD ""

end PascalBlock.Report
