import PascalBlock.Node.Kind
import PascalBlock.Scope
import PascalBlock.Token.Basic

/-!
# The tree

A node has a kind, children in order, and up to three attributes. Which value belongs under which
key is up to whoever builds the node; the getters answer only for a value of the right sort.
-/

namespace PascalBlock

/-- What an attribute can hold: a source line, an identifier, or the value of a constant. -/
inductive AttrValue where
  | line (number : UInt32)
  | entry (ref : EntryRef)
  | literal (value : Literal)
deriving DecidableEq, Repr

/-- The keys of attributes, in the order in which they are listed. -/
inductive AttrKey where
  | line | id | value
deriving DecidableEq, Repr

structure Attributes where
  line : Option AttrValue
  id : Option AttrValue
  value : Option AttrValue
deriving DecidableEq, Repr

namespace Attributes

def empty : Attributes := ⟨none, none, none⟩

/-- Sets one attribute; an earlier value of the key is gone. -/
def set (a : Attributes) : AttrKey → AttrValue → Attributes
  | .line, v => { a with line := v }
  | .id, v => { a with id := v }
  | .value, v => { a with value := v }

/-- The values that are set, in the order of their keys. -/
def toList (a : Attributes) : List AttrValue := [a.line, a.id, a.value].filterMap fun v => v

end Attributes

inductive Node where
  | mk (kind : NodeKind) (attributes : Attributes) (children : List Node)
deriving Repr

namespace Node

def kind : Node → NodeKind
  | mk k _ _ => k

def attributes : Node → Attributes
  | mk _ a _ => a

def children : Node → List Node
  | mk _ _ cs => cs

/-- A node without attributes, over those children that are there. -/
def ofChildren (kind : NodeKind) (children : List (Option Node)) : Node :=
  mk kind .empty (children.filterMap fun n => n)

/-- A node without children. -/
def leaf (kind : NodeKind) : Node := mk kind .empty []

def setAttribute (n : Node) (key : AttrKey) (value : AttrValue) : Node :=
  mk n.kind (n.attributes.set key value) n.children

/-- The line that a statement starts on. -/
def line? (n : Node) : Option UInt32 :=
  match n.attributes.line with
  | some (.line number) => some number
  | _ => none

/-- The identifier of a variable. -/
def entry? (n : Node) : Option EntryRef :=
  match n.attributes.id with
  | some (.entry ref) => some ref
  | _ => none

/-- The value of a constant. -/
def literal? (n : Node) : Option Literal :=
  match n.attributes.value with
  | some (.literal value) => some value
  | _ => none

end Node

end PascalBlock
