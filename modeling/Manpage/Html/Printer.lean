import Manpage.Html.Document

/-!
# Printing documents

The text of a document.  In text the characters `&`, `<`, `>` and the non-breaking space are
written as references, in attribute values `"` as well.

## Main definitions

* `Node.print`: the text of a node.
* `Document.print`: the text of a document.
-/

namespace Manpage.Html

/-- A character of text. -/
def printTextChar (c : Char) : List Char :=
  match c with
  | '&' => '&' :: "amp;".toList
  | '\u00A0' => '&' :: "nbsp;".toList
  | '<' => '&' :: "lt;".toList
  | '>' => '&' :: "gt;".toList
  | c => [c]

/-- A character of an attribute value. -/
def printValueChar (c : Char) : List Char :=
  if c = '"' then '&' :: "quot;".toList else printTextChar c

/-- An attribute, with the space before it. -/
def Attribute.print (a : Attribute) : List Char :=
  [' '] ++ a.name.toList ++ "=\"".toList ++ a.value.toList.flatMap printValueChar ++ ['"']

/-- A start tag. -/
def printStart (tag : Tag) (attributes : List Attribute) : List Char :=
  ['<'] ++ tag.name.toList ++ attributes.flatMap Attribute.print ++ ['>']

/-- An end tag. -/
def printEnd (tag : Tag) : List Char :=
  ['<', '/'] ++ tag.name.toList ++ ['>']

namespace Node

mutual

/-- The text of a node, followed by `rest`. -/
def printBefore (rest : List Char) : Node → List Char
  | text content => content.toList.flatMap printTextChar ++ rest
  | element tag attributes children =>
    printStart tag attributes ++
      if tag.isVoid then rest else printAllBefore (printEnd tag ++ rest) children

/-- The text of nodes, followed by `rest`. -/
def printAllBefore (rest : List Char) : List Node → List Char
  | [] => rest
  | node :: nodes => printBefore (printAllBefore rest nodes) node

end

/-- The text of a node. -/
def print (node : Node) : List Char :=
  printBefore [] node

end Node

/-- The text of a document. -/
def Document.print (d : Document) : List Char :=
  d.root.print

end Manpage.Html
