import Manpage.Html.Node
import Manpage.Text.Basic

/-!
# Option links

A page introduces an option in bold as the term of a definition list, and mentions it in bold
elsewhere.  Each definition becomes the target of a link, and each mention a link to it.  When an
option is defined more than once, the last definition is the target and the earlier ones are links
like any mention.

## Main definitions

* `isOption`: the form of an option.
* `definitions`: the definitions in a document, in document order, with their positions.
* `linkOptions`: the document with its option links.
* `optionCount`: the number of options that are linked.
-/

namespace Manpage.Link

open Html (Node Tag Attribute)

/-- Whether `c` can be part of an option. -/
def isOptionChar (c : Char) : Bool :=
  c.isAlpha || c == '=' || c == '-'

/-- Whether a text has the form of an option: a dash, followed by letters, dashes and equals
signs, at least one. -/
def isOption : List Char → Bool
  | '-' :: c :: cs => (c :: cs).all isOptionChar
  | _ => false

/-- The text inside nodes, without the blanks at its ends. -/
def trimmedText (nodes : List Node) : List Char :=
  Text.trim (Node.textContents nodes)

/-! ## Definitions -/

/-- Where a node stands, as far as definition lists go. -/
inductive Place where
  /-- Directly in a definition list. -/
  | inList
  /-- Directly in a term of a definition list. -/
  | inTerm
  /-- Anywhere else. -/
  | elsewhere
  deriving DecidableEq, Repr

/-- Where the children of an element stand. -/
def Place.inside (place : Place) (tag : Tag) : Place :=
  match tag, place with
  | .dl, _ => .inList
  | .dt, .inList => .inTerm
  | _, _ => .elsewhere

/-- The position of a node: its index among its siblings, then the position of its parent. -/
abbrev Position := List Nat

/-- The option that an element defines, if it is a definition. -/
def definedOption? (place : Place) (tag : Tag) (children : List Node) : Option (List Char) :=
  if place = .inTerm ∧ tag = .b then some (trimmedText children) |>.filter isOption else none

mutual

/-- The definitions in a node, in document order. -/
def definitionsIn (place : Place) (here : Position) : Node → List (Position × List Char)
  | .text _ => []
  | .element tag _ children =>
    ((definedOption? place tag children).map (here, ·)).toList ++
      definitionsAmong (place.inside tag) here 0 children

/-- The definitions in the children of a node from a given index on. -/
def definitionsAmong (place : Place) (parent : Position) (index : Nat) :
    List Node → List (Position × List Char)
  | [] => []
  | node :: nodes =>
    definitionsIn place (index :: parent) node ++
      definitionsAmong place parent (index + 1) nodes

end

/-- The definitions in a document, in document order. -/
def definitions (nodes : List Node) : List (Position × List Char) :=
  definitionsAmong .elsewhere [] 0 nodes

/-- The options that are defined. -/
def definedOptions (nodes : List Node) : List (List Char) :=
  (definitions nodes).map (·.2)

/-- The number of options that are defined. -/
def optionCount (nodes : List Node) : Nat :=
  (definedOptions nodes).eraseDups.length

/-! ## Links -/

/-- The position of the definition of `option` that is its target, which is the last one; `defs`
are the definitions, the last one first. -/
def target? (defs : List (Position × List Char)) (option : List Char) : Option Position :=
  (defs.find? (·.2 == option)).map (·.1)

/-- The class of the anchors that link options. -/
def anchorClass : String := "in-doc"

/-- The attributes of the anchor that links `option`; the target has the `id`. -/
def anchorAttributes (option : List Char) (isTarget : Bool) : List Attribute :=
  [⟨"href", String.ofList ('#' :: option)⟩, ⟨"class", anchorClass⟩] ++
    if isTarget then [⟨"id", String.ofList option⟩] else []

/-- The node inside an anchor that links `option`. -/
def anchor (option : List Char) (isTarget : Bool) (node : Node) : Node :=
  .element .a (anchorAttributes option isTarget) [node]

/-- The option that an element mentions, if it mentions a defined one. -/
def mentionedOption? (defs : List (Position × List Char)) (tag : Tag) (children : List Node) :
    Option (List Char) :=
  if tag = .b then some (trimmedText children) |>.filter fun text => defs.any (·.2 == text)
  else none

mutual

/-- A node with its option links, where `defs` are the definitions, the last one first.
`inAnchor` says whether it lies in an anchor that is in the document or that links a definition; a
mention there is left alone. -/
def linkIn (defs : List (Position × List Char)) (place : Place) (inAnchor : Bool)
    (here : Position) : Node → Node
  | .text content => .text content
  | .element tag attributes children =>
    match definedOption? place tag children with
    | some option =>
      anchor option (target? defs option == some here)
        (.element tag attributes (linkAmong defs (place.inside tag) true here 0 children))
    | none =>
      let linked := .element tag attributes
        (linkAmong defs (place.inside tag) (inAnchor || tag == .a) here 0 children)
      match mentionedOption? defs tag children with
      | some option => if inAnchor then linked else anchor option false linked
      | none => linked

/-- The children of a node from a given index on, with their option links. -/
def linkAmong (defs : List (Position × List Char)) (place : Place) (inAnchor : Bool)
    (parent : Position) (index : Nat) : List Node → List Node
  | [] => []
  | node :: nodes =>
    linkIn defs place inAnchor (index :: parent) node ::
      linkAmong defs place inAnchor parent (index + 1) nodes

end

/-- The document with its option links. -/
def linkOptions (nodes : List Node) : List Node :=
  linkAmong (definitions nodes).reverse .elsewhere false [] 0 nodes

end Manpage.Link
