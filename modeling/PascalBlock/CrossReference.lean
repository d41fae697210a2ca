import PascalBlock.Scope

/-!
# The cross-reference listing

Under four heading lines, the identifiers of the innermost scope in increasing order, each with the
lines it stands on. A name is padded to a column of sixteen characters, a line number to three
digits.
-/

namespace PascalBlock.CrossReference

/-- A name in its column. -/
def nameColumn (name : String) : String :=
  name ++ String.ofList (List.replicate (16 - name.length) ' ')

/-- A line number of at least three digits. -/
def lineNumber (n : UInt32) : String :=
  let digits := toString n.toNat
  String.ofList (List.replicate (3 - digits.length) '0') ++ digits

def row (name : String) (lines : List UInt32) : String :=
  nameColumn name ++ " " ++ " ".intercalate (lines.map lineNumber) ++ "\n"

def heading : String :=
  "===== CROSS-REFERENCE TABLE =====\n\n" ++ nameColumn "Identifier" ++ " Line numbers\n" ++
    nameColumn "----------" ++ " ------------\n"

def listing (s : ScopeStack) : String :=
  heading ++ String.join (s.innermost.entries.map fun i => row i.2.name (s.linesOf i.2))

end PascalBlock.CrossReference
