import Manpage.Html.Node

/-!
# Open elements

The body of a document while it is being read.  The elements that are still open lie inside one
another, so the tree under construction is a spine: each open element holds the children that are
already complete, and the next element of the spine is its last child.

## Main definitions

* `OpenElement`: an element that is still open.
* `Spine`: the body of a document under construction.
* `Spine.push`, `Spine.pop`, `Spine.closeThrough`: opening and closing elements.
* `Spine.complete`: the children of the body once everything is closed.
-/

namespace Manpage.Html

/-- An element that is still open. -/
structure OpenElement where
  /-- Tells elements apart. -/
  id : Nat
  tag : Tag
  attributes : List Attribute
  /-- The children that are complete, the last one first. -/
  children : List Node := []

/-- The element, closed after the further children `last`, the last one first. -/
def OpenElement.close (e : OpenElement) (last : List Node) : Node :=
  .element e.tag e.attributes (last ++ e.children).reverse

/-- The nodes that remain of a chain of open elements, the innermost first, when the innermost
holds the further children `last`. -/
def closeChain (last : List Node) : List OpenElement → List Node
  | [] => last
  | e :: outer => closeChain [e.close last] outer

/-- The body of a document under construction. -/
structure Spine where
  /-- The children of the body that are complete, the last one first. -/
  body : List Node := []
  /-- The open elements inside the body, the innermost first. -/
  elements : List OpenElement := []

namespace Spine

/-- Changes the children of the innermost open element, or of the body if there is none. -/
def modifyChildren (f : List Node → List Node) (s : Spine) : Spine :=
  match s.elements with
  | [] => { s with body := f s.body }
  | e :: outer => { s with elements := { e with children := f e.children } :: outer }

/-- Children with a character of text after the last one. -/
def addChar (c : Char) : List Node → List Node
  | .text content :: nodes => .text (content.push c) :: nodes
  | nodes => .text (String.singleton c) :: nodes

/-- Adds a character of text. -/
def appendChar (c : Char) (s : Spine) : Spine :=
  s.modifyChildren (addChar c)

/-- Adds nodes, the last one first. -/
def append (nodes : List Node) (s : Spine) : Spine :=
  s.modifyChildren (nodes ++ ·)

/-- Opens an element. -/
def push (e : OpenElement) (s : Spine) : Spine :=
  { s with elements := e :: s.elements }

/-- Closes the innermost open element. -/
def pop (s : Spine) : Spine :=
  match s.elements with
  | [] => s
  | e :: outer => { s with elements := outer }.append [e.close []]

/-- Closes the `n` innermost open elements. -/
def popMany : Nat → Spine → Spine
  | 0, s => s
  | n + 1, s => popMany n s.pop

/-- The number of open elements up to the innermost one that satisfies `p`. -/
@[specialize] def depth? (p : OpenElement → Bool) (s : Spine) : Option Nat :=
  (s.elements.findIdx? p).map (· + 1)

/-- Closes everything through the innermost open element that satisfies `p`; nothing if there is
none. -/
@[specialize] def closeThrough (p : OpenElement → Bool) (s : Spine) : Spine :=
  popMany ((s.depth? p).getD 0) s

/-- The children of the body once everything is closed. -/
def complete (s : Spine) : List Node :=
  (popMany s.elements.length s).body.reverse

end Spine

end Manpage.Html
