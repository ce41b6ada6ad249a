import Manpage.Link.Option
import Manpage.Text.Letter

/-!
# The links inside a page

The anchors of a page that point into the page by their own text: the headings of sections and the
definitions of options.  They are listed words first, then options, short ones before long ones.

## Main definitions

* `links`: the texts of the anchors that point inside the page.
* `displayOrder`: links in the order in which they are listed.
-/

namespace Manpage.Link

open Html (Node)

/-- Whether `part` occurs in `cs`. -/
def occursIn (part : List Char) : List Char → Bool
  | [] => part.isEmpty
  | c :: cs => part.isPrefixOf (c :: cs) || occursIn part cs

mutual

/-- The anchors in a node, in document order, each with the value of its `href` and its text. -/
def anchorsIn : Node → List (List Char × List Char)
  | .text _ => []
  | .element tag attributes children =>
    (if tag = .a then
      ((Html.attribute? "href" attributes).map fun href =>
        (href.toList, trimmedText children)).toList
    else []) ++ anchorsAmong children

/-- The anchors in nodes, in document order. -/
def anchorsAmong : List Node → List (List Char × List Char)
  | [] => []
  | node :: nodes => anchorsIn node ++ anchorsAmong nodes

end

/-- Whether an anchor points inside the page, to the place named by its own text. -/
def pointsInside (href text : List Char) : Bool :=
  text ≠ [] && occursIn ('#' :: text) href

/-- The texts of the anchors that point inside the page, in the order of their code points. -/
def links (nodes : List Node) : List (List Char) :=
  Text.sortedSet
    (((anchorsAmong nodes).filter fun (href, text) => pointsInside href text).map (·.2))

/-- The group in which a link is listed: words before all others, and in either group links of two
characters before the rest. -/
def displayGroup (link : List Char) : Nat :=
  match link with
  | [] => 0
  | c :: _ => (if Text.isLetter c then 1 else 3) + if link.length = 2 then 0 else 1

/-- Links in the order in which they are listed.  Links of one group keep their order. -/
def displayOrder (links : List (List Char)) : List (List Char) :=
  links.mergeSort fun a b => displayGroup a ≤ displayGroup b

end Manpage.Link
