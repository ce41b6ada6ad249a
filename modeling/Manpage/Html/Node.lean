import Manpage.Html.Tag

/-!
# Nodes

A document as a tree of elements and texts.

## Main definitions

* `Attribute`: an attribute of an element.
* `Node`: a text, or an element with its children.
* `Node.textContents`: the text inside a node.
-/

namespace Manpage.Html

/-- An attribute of an element. -/
structure Attribute where
  /-- The name, in lower case. -/
  name : String
  /-- The value. -/
  value : String
  deriving DecidableEq, Repr

/-- A text, or an element with its attributes and children. -/
inductive Node where
  | text (content : String)
  | element (tag : Tag) (attributes : List Attribute) (children : List Node)
  deriving Repr, BEq

namespace Node

mutual

/-- The text inside a node, followed by `rest`. -/
def textBefore (rest : List Char) : Node → List Char
  | text content => content.toList ++ rest
  | element _ _ children => textsBefore rest children

/-- The text inside nodes, followed by `rest`. -/
def textsBefore (rest : List Char) : List Node → List Char
  | [] => rest
  | node :: nodes => textBefore (textsBefore rest nodes) node

end

/-- The text inside nodes. -/
def textContents (nodes : List Node) : List Char :=
  textsBefore [] nodes

end Node

/-- The value of the attribute called `name`, if it is present. -/
def attribute? (name : String) (attributes : List Attribute) : Option String :=
  (attributes.find? (·.name == name)).map (·.value)

end Manpage.Html
