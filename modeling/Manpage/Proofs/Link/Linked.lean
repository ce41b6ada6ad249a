import Manpage.Proofs.Link.Path

/-!
# Documents with added anchors

A document in which some elements have been put into anchors, so that the added anchors are told
apart from those that were there. A choice of the elements that get an anchor decides all of it:
what is added, in document order, and when anchors lie in one another.

## Main definitions

* `Linked`: a node of a document with added anchors
* `Linked.original`, `Linked.result`: the node without and with the added anchors
* `Linked.addedIn`: the added anchors
* `anchorIn`: a node in which chosen elements are put into anchors

## Main results

* `Linked.textsBefore_results`: the text stays the same
* `originals_anchorAmong`: nothing but the added anchors changes
* `addedAmong_anchorAmong`: the added anchors are those of the chosen elements
-/

namespace Manpage.Link

open Html (Node Tag Attribute)

/-- A node of a document with added anchors. -/
inductive Linked where
  | text (content : String)
  | element (tag : Tag) (attributes : List Attribute) (children : List Linked)
  /-- An added anchor around an element. -/
  | anchor (attributes : List Attribute) (child : Linked)

/-- An added anchor: the position of the element that it was put around, its attributes and its
children. -/
structure Added where
  origin : Position
  attributes : List Attribute
  children : List Node

namespace Linked

mutual

/-- The node without the added anchors. -/
def original : Linked → Node
  | .text content => .text content
  | .element tag attributes children => .element tag attributes (originals children)
  | .anchor _ child => child.original

/-- The nodes without the added anchors. -/
def originals : List Linked → List Node
  | [] => []
  | node :: nodes => node.original :: originals nodes

end

mutual

/-- The node with the added anchors. -/
def result : Linked → Node
  | .text content => .text content
  | .element tag attributes children => .element tag attributes (results children)
  | .anchor attributes child => .element .a attributes [child.result]

/-- The nodes with the added anchors. -/
def results : List Linked → List Node
  | [] => []
  | node :: nodes => node.result :: results nodes

end

mutual

/-- The added anchors in a node, in document order. Added anchors do not count for positions, so
`here` is the position of the node without them. -/
def addedIn (here : Position) : Linked → List Added
  | .text _ => []
  | .element _ _ children => addedAmong here 0 children
  | .anchor attributes child => ⟨here, attributes, [child.result]⟩ :: addedIn here child

/-- The added anchors in the children of a node from a given index on. -/
def addedAmong (parent : Position) (index : Nat) : List Linked → List Added
  | [] => []
  | node :: nodes => addedIn (index :: parent) node ++ addedAmong parent (index + 1) nodes

end

mutual

theorem textBefore_result :
    ∀ (node : Linked) (rest : List Char),
      Node.textBefore rest node.result = Node.textBefore rest node.original
  | .text _, _ => rfl
  | .element _ _ children, rest => textsBefore_results children rest
  | .anchor attributes child, rest => by
    rw [result, original, Node.textBefore, Node.textsBefore, Node.textsBefore,
      textBefore_result child rest]

/-- **Added anchors do not change the text.** -/
theorem textsBefore_results :
    ∀ (nodes : List Linked) (rest : List Char),
      Node.textsBefore rest (results nodes) = Node.textsBefore rest (originals nodes)
  | [], _ => rfl
  | node :: nodes, rest => by
    rw [results, originals, Node.textsBefore, Node.textsBefore, textsBefore_results nodes rest,
      textBefore_result node]

end

end Linked

/-! ## Anchors around chosen elements -/

section Choice

variable (choose : Path → Option (List Attribute))

mutual

/-- A node in which the chosen elements are put into anchors; an element is chosen by the attributes
of its anchor. -/
def anchorIn (above : Path) (index : Nat) : Node → Linked
  | .text content => .text content
  | .element tag attributes children =>
    let path := ⟨index, tag, attributes, children⟩ :: above
    let inner := .element tag attributes (anchorAmong path 0 children)
    match choose path with
    | some chosen => .anchor chosen inner
    | none => inner

/-- The children of an element from a given index on, with anchors around the chosen elements. -/
def anchorAmong (above : Path) (index : Nat) : List Node → List Linked
  | [] => []
  | node :: nodes => anchorIn above index node :: anchorAmong above (index + 1) nodes

end

/-- The anchor that is added around the element that a path leads to. -/
def added? : Path → Option Added
  | [] => none
  | level :: above =>
    (choose (level :: above)).map fun attributes =>
      ⟨position (level :: above), attributes, [.element level.tag level.attributes
        (Linked.results (anchorAmong choose (level :: above) 0 level.children))]⟩

mutual

theorem original_anchorIn (above : Path) (index : Nat) :
    ∀ node : Node, (anchorIn choose above index node).original = node
  | .text _ => rfl
  | .element tag attributes children => by
    have ih := originals_anchorAmong (⟨index, tag, attributes, children⟩ :: above) 0 children
    rw [anchorIn]
    split
    · rw [Linked.original, Linked.original, ih]
    · rw [Linked.original, ih]

/-- **Nothing but the added anchors changes.** -/
theorem originals_anchorAmong (above : Path) (index : Nat) :
    ∀ nodes : List Node, Linked.originals (anchorAmong choose above index nodes) = nodes
  | [] => rfl
  | node :: nodes => by
    rw [anchorAmong, Linked.originals, original_anchorIn above index node,
      originals_anchorAmong above (index + 1) nodes]

end

mutual

theorem addedIn_anchorIn (above : Path) (index : Nat) :
    ∀ node : Node, Linked.addedIn (index :: position above) (anchorIn choose above index node) =
      (pathsIn above index node).filterMap (added? choose)
  | .text _ => rfl
  | .element tag attributes children => by
    have ih := addedAmong_anchorAmong (⟨index, tag, attributes, children⟩ :: above) 0 children
    rw [anchorIn, pathsIn, List.filterMap_cons, ← ih]
    cases h : choose (⟨index, tag, attributes, children⟩ :: above) with
    | none =>
      rw [added?, h]
      rfl
    | some chosen =>
      rw [added?, h]
      rfl

/-- **The added anchors** are those of the chosen elements, in document order. -/
theorem addedAmong_anchorAmong (above : Path) (index : Nat) :
    ∀ nodes : List Node,
      Linked.addedAmong (position above) index (anchorAmong choose above index nodes) =
        (pathsAmong above index nodes).filterMap (added? choose)
  | [] => rfl
  | node :: nodes => by
    rw [anchorAmong, Linked.addedAmong, pathsAmong, List.filterMap_append,
      addedIn_anchorIn above index node, addedAmong_anchorAmong above (index + 1) nodes]

end

theorem trimmedText_anchorAmong (above : Path) (index : Nat) (nodes : List Node) :
    trimmedText (Linked.results (anchorAmong choose above index nodes)) = trimmedText nodes := by
  rw [trimmedText, Node.textContents, Linked.textsBefore_results, originals_anchorAmong,
    trimmedText, Node.textContents]

end Choice

end Manpage.Link
