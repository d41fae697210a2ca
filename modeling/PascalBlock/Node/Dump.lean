import PascalBlock.Node.Basic

/-!
# The tree dump

A tree as nested tags, one to a line and indented by its depth. Attributes are shown by what they
hold, in the order of their keys; a node without children is a tag by itself.
-/

namespace PascalBlock.Node

/-- Four blanks for every level. -/
def indent (depth : Nat) : String := String.ofList (List.replicate (4 * depth) ' ')

def attributeText : AttrValue → String
  | .line number => " line=\"" ++ toString number.toNat ++ "\""
  | .entry ref => " id=\"" ++ ref.name ++ "\""
  | .literal value => " value=\"" ++ value.text ++ "\""

/-- The name of a tag with its attributes. -/
def tagText (kind : NodeKind) (attributes : Attributes) : String :=
  kind.name ++ String.join (attributes.toList.map attributeText)

mutual

/-- The dump of a tree that stands at a depth. -/
def dumpAt (depth : Nat) : Node → String
  | mk kind attributes [] => indent depth ++ "<" ++ tagText kind attributes ++ " />\n"
  | mk kind attributes (child :: rest) =>
    indent depth ++ "<" ++ tagText kind attributes ++ ">\n" ++
      dumpAt (depth + 1) child ++ dumpAll (depth + 1) rest ++
      indent depth ++ "</" ++ kind.name ++ ">\n"

def dumpAll (depth : Nat) : List Node → String
  | [] => ""
  | n :: ns => dumpAt depth n ++ dumpAll depth ns

end

/-- The dump of a tree; without a tree there is nothing to show. -/
def dump : Option Node → String
  | none => ""
  | some root => dumpAt 0 root

end PascalBlock.Node
