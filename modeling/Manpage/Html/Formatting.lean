import Manpage.Html.OpenElements
import Manpage.Text.Basic

/-!
# Formatting elements

Anchors and font elements keep their effect on text until they are closed by name, even when the
elements around them are closed first.  The document therefore remembers which of them are active:
text and new elements reopen those that are no longer open, and an end tag that crosses other
elements splits the formatting element in two.

## Main definitions

* `FormattingElement`: an active formatting element.
* `Builder`: the open elements together with the active formatting elements.
* `Builder.reconstruct`: reopens active formatting elements.
* `Builder.adopt`: closes a formatting element by name, wherever it is open.
-/

namespace Manpage.Html

/-- An active formatting element. -/
structure FormattingElement where
  /-- The open element that it was last opened as. -/
  id : Nat
  tag : Tag
  attributes : List Attribute

/-- The body of a document while it is read. -/
structure Builder where
  spine : Spine := {}
  /-- The active formatting elements, the latest first. -/
  formatting : List FormattingElement := []
  /-- The next identifier that is not in use. -/
  nextId : Nat := 0
  /-- Whether a line feed that comes next is dropped. -/
  dropsNewline : Bool := false
  /-- The attributes of the root element. -/
  rootAttributes : List Attribute := []
  /-- The attributes of the body. -/
  bodyAttributes : List Attribute := []

namespace Builder

/-- Changes the open elements. -/
def onSpine (f : Spine → Spine) (b : Builder) : Builder :=
  { b with spine := f b.spine }

/-- Opens an element. -/
def push (tag : Tag) (attributes : List Attribute) (b : Builder) : Builder :=
  { b with spine := b.spine.push { id := b.nextId, tag, attributes }, nextId := b.nextId + 1 }

/-- Whether an element with this tag is open. -/
def isOpen (tag : Tag) (b : Builder) : Bool :=
  b.spine.elements.any (·.tag == tag)

/-- Closes everything through the innermost element with this tag; nothing if there is none. -/
def closeThrough (tag : Tag) (b : Builder) : Builder :=
  b.onSpine (·.closeThrough (·.tag == tag))

/-- Closes the innermost element with this tag if only elements of no special kind lie in it. -/
def closeOrdinary (tag : Tag) (b : Builder) : Builder :=
  match b.spine.elements.find? fun e => e.tag == tag || e.tag.isSpecial with
  | some e => if e.tag == tag then b.closeThrough tag else b
  | none => b

/-! ## Reopening -/

/-- Whether the formatting element is open. -/
def isStillOpen (b : Builder) (f : FormattingElement) : Bool :=
  b.spine.elements.any (·.id == f.id)

/-- Reopens formatting elements, the one to be outermost first, and gives them as they are active
then, the latest first. -/
def reopen (b : Builder) : List FormattingElement → Builder
  | [] => b
  | f :: fs =>
    let reopened := { b.push f.tag f.attributes with
      formatting := { f with id := b.nextId } :: b.formatting }
    reopened.reopen fs

/-- Reopens the active formatting elements that are later than every one still open. -/
def reconstruct (b : Builder) : Builder :=
  let closed := b.formatting.takeWhile (!b.isStillOpen ·)
  reopen { b with formatting := b.formatting.drop closed.length } closed.reverse

/-- Whether two attribute lists agree, in whatever order. -/
def sameAttributes (as bs : List Attribute) : Bool :=
  as.length == bs.length && as.all (bs.contains ·)

/-- How many equal formatting elements can be active at once. -/
def maxEqual : Nat := 3

/-- The active formatting elements with room for one more with this tag and these attributes: if
there are as many equal ones as can be, the earliest is forgotten. -/
def makeRoom (tag : Tag) (attributes : List Attribute) (fs : List FormattingElement) :
    List FormattingElement :=
  let isEqual := fun f : FormattingElement =>
    f.tag == tag && sameAttributes f.attributes attributes
  if maxEqual ≤ fs.countP isEqual then (fs.reverse.eraseP isEqual).reverse else fs

/-- Opens a formatting element and makes it active. -/
def pushFormatting (tag : Tag) (attributes : List Attribute) (b : Builder) : Builder :=
  let formatting := makeRoom tag attributes b.formatting
  { b.push tag attributes with formatting := ⟨b.nextId, tag, attributes⟩ :: formatting }

/-! ## Closing a formatting element -/

/-- The element that satisfies `p` first, with those before and after it. -/
def splitAt? {α : Type} (p : α → Bool) (xs : List α) : Option (List α × α × List α) :=
  match xs.dropWhile (!p ·) with
  | [] => none
  | x :: after => some (xs.takeWhile (!p ·), x, after)

/-- How many elements between a formatting element and the block inside it are reopened around
the block. -/
def maxReopened : Nat := 3

/-- The elements `between` a formatting element and the block inside it, the innermost first, as
they are reopened around the block: those that are active formatting elements, at most
`maxReopened` elements out from the block.  The others among them are no longer active. -/
def reopenBetween : (left : Nat) → (between : List OpenElement) → (fs : List FormattingElement) →
    (nextId : Nat) → List OpenElement × List FormattingElement × Nat
  | _, [], fs, nextId => ([], fs, nextId)
  | left, e :: outer, fs, nextId =>
    if left ≠ 0 ∧ fs.any (·.id == e.id) then
      let fs := fs.map fun f => if f.id = e.id then { f with id := nextId } else f
      let (reopened, fs, next) := reopenBetween (left - 1) outer fs (nextId + 1)
      ({ e with id := nextId, children := [] } :: reopened, fs, next)
    else reopenBetween (left - 1) outer (fs.filter (·.id ≠ e.id)) nextId

/-- Active formatting elements where `new` takes the place of the one with the identifier `old`:
directly after the one with the identifier `after?`, if that is given. -/
def replaceFormatting (old : Nat) (after? : Option Nat) (new : FormattingElement)
    (fs : List FormattingElement) : List FormattingElement :=
  match after? with
  | none => fs.map fun f => if f.id = old then new else f
  | some id => (fs.filter (·.id ≠ old)).flatMap fun f => if f.id = id then [new, f] else [f]

/-- Splits the formatting element `f`, open as `e`, around the `block` inside it.  The open
elements are, from the inside: `inner`, `block`, `between`, `e`, `outer`.  What `e` holds before the
block is closed; the block takes its place, and what the block holds gets a formatting element of
its own. -/
def splitAround (f : FormattingElement) (inner : List OpenElement) (block : OpenElement)
    (between : List OpenElement) (e : OpenElement) (outer : List OpenElement) (b : Builder) :
    Builder :=
  let (reopened, formatting, nextId) := reopenBetween maxReopened between b.formatting b.nextId
  let before := { b.spine with elements := outer }.append (closeChain [] (between ++ [e]))
  let copy : OpenElement :=
    { id := nextId, tag := f.tag, attributes := f.attributes, children := block.children }
  { b with
    spine := { before with
      elements := inner ++ [copy, { block with children := [] }] ++ reopened ++ before.elements }
    formatting :=
      replaceFormatting f.id (reopened.head?.map (·.id)) { f with id := nextId } formatting
    nextId := nextId + 1 }

/-- Forgets the active formatting element with this identifier. -/
def forget (id : Nat) (b : Builder) : Builder :=
  { b with formatting := b.formatting.filter (·.id ≠ id) }

/-- Closes the latest active formatting element with this tag.  As long as a special element lies
inside it, it is split around the outermost of these, at most `n` times. -/
def adoptUpTo : (n : Nat) → (tag : Tag) → Builder → Builder
  | 0, _, b => b
  | n + 1, tag, b =>
    match b.formatting.find? (·.tag == tag) with
    | none => b.closeOrdinary tag
    | some f =>
      match splitAt? (·.id == f.id) b.spine.elements with
      | none => b.forget f.id
      | some (inside, e, outer) =>
        match splitAt? (·.tag.isSpecial) inside.reverse with
        | none => (b.onSpine (·.popMany (inside.length + 1))).forget f.id
        | some (between, block, inner) =>
          adoptUpTo n tag (b.splitAround f inner.reverse block between.reverse e outer)

/-- How often an end tag splits formatting elements. -/
def maxSplits : Nat := 8

/-- Closes a formatting element by name, wherever it is open. -/
def adopt (tag : Tag) (b : Builder) : Builder :=
  match b.spine.elements with
  | e :: _ =>
    if e.tag == tag && !b.formatting.any (·.id == e.id) then b.onSpine Spine.pop
    else b.adoptUpTo maxSplits tag
  | [] => b.adoptUpTo maxSplits tag

end Builder

end Manpage.Html
