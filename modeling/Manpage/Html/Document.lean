import Manpage.Html.Formatting
import Manpage.Html.Token

/-!
# Documents

Reading a document: which elements each token opens and closes.  Every text gives a document with
one root, which holds an empty head and a body.

## Main definitions

* `Document`: a document.
* `Builder.token`: what a token does to the body.
* `Document.parse`: the document that a text gives.
-/

namespace Manpage.Html

namespace Builder

/-- Reads a character of text. -/
def readChar (c : Char) (b : Builder) : Builder :=
  if c = '\x00' then b else b.reconstruct.onSpine (·.appendChar c)

/-- Adds attributes that are not there yet. -/
def addMissing (new old : List Attribute) : List Attribute :=
  old ++ new.filter fun a => !old.any (·.name == a.name)

/-- Closes the definition or the term that a new one follows. -/
def closeDefinition (b : Builder) : Builder :=
  let isBarrier := fun t : Tag => t.isSpecial && t != .div && t != .p
  match b.spine.elements.find? fun e => e.tag.isDefinition || isBarrier e.tag with
  | some e => if e.tag.isDefinition then b.closeThrough e.tag else b
  | none => b

/-- Closes the innermost element if it is a heading. -/
def closeHeading (b : Builder) : Builder :=
  match b.spine.elements with
  | e :: _ => if e.tag.isHeading then b.onSpine Spine.pop else b
  | [] => b

/-- Adds an element without content. -/
def appendVoid (tag : Tag) (attributes : List Attribute) (b : Builder) : Builder :=
  b.onSpine (·.append [.element tag attributes []])

/-- Reads a start tag. -/
def readStart (tag : Tag) (attributes : List Attribute) (b : Builder) : Builder :=
  match tag with
  | .html => { b with rootAttributes := addMissing attributes b.rootAttributes }
  | .body => { b with bodyAttributes := addMissing attributes b.bodyAttributes }
  | .head => b
  | .div | .dl | .p => (b.closeThrough .p).push tag attributes
  | .h1 | .h2 => (b.closeThrough .p).closeHeading.push tag attributes
  | .pre => { (b.closeThrough .p).push tag attributes with dropsNewline := true }
  | .dd | .dt => (b.closeDefinition.closeThrough .p).push tag attributes
  | .a =>
    let closed :=
      match b.formatting.find? (·.tag == .a) with
      | some f => (b.adopt .a).forget f.id
      | none => b
    closed.reconstruct.pushFormatting tag attributes
  | .b | .i => b.reconstruct.pushFormatting tag attributes
  | .br => b.reconstruct.appendVoid tag attributes
  | .other _ => b.reconstruct.push tag attributes

/-- Reads an end tag. -/
def readEnd (tag : Tag) (b : Builder) : Builder :=
  match tag with
  | .html | .body | .head => b
  | .div | .dl | .pre | .dd | .dt => b.closeThrough tag
  | .p => if b.isOpen .p then b.closeThrough .p else b.appendVoid .p []
  | .h1 | .h2 => b.onSpine (·.closeThrough (·.tag.isHeading))
  | .a | .b | .i => b.adopt tag
  | .br => b.reconstruct.appendVoid .br []
  | .other _ => b.closeOrdinary tag

/-- Reads a token of the body. -/
def token (b : Builder) (t : Token) : Builder :=
  let dropsNewline := b.dropsNewline
  let b := { b with dropsNewline := false }
  match t with
  | .char c => if dropsNewline && c == '\n' then b else b.readChar c
  | .startTag tag attributes => b.readStart tag attributes
  | .endTag tag => b.readEnd tag

/-- Whether `c` is a space before the body. -/
def isLeadingSpace (c : Char) : Bool :=
  Token.isSpace c || c == '\r'

/-- Reads what comes before the body: spaces and most end tags are dropped, and the first token of
any other kind starts the body. -/
def beforeBody (b : Builder) : List Token → Builder
  | [] => b
  | .char c :: tokens =>
    if isLeadingSpace c then b.beforeBody tokens else (Token.char c :: tokens).foldl token b
  | .startTag .html attributes :: tokens =>
    { b with rootAttributes := addMissing attributes b.rootAttributes }.beforeBody tokens
  | .startTag tag attributes :: tokens => (Token.startTag tag attributes :: tokens).foldl token b
  | .endTag tag :: tokens =>
    if tag matches .html | .head | .body | .br then (Token.endTag tag :: tokens).foldl token b
    else b.beforeBody tokens

end Builder

/-- A document: a root with an empty head and a body. -/
structure Document where
  rootAttributes : List Attribute
  bodyAttributes : List Attribute
  /-- The children of the body. -/
  body : List Node
  deriving Repr, BEq

namespace Document

/-- A text whose lines all end in a line feed alone. -/
def normalizeNewlines : List Char → List Char
  | [] => []
  | '\r' :: '\n' :: cs => '\n' :: normalizeNewlines cs
  | '\r' :: cs => '\n' :: normalizeNewlines cs
  | c :: cs => c :: normalizeNewlines cs

/-- The tokens of a document's text. -/
def tokens (cs : List Char) : List Token :=
  Token.scan (normalizeNewlines (Text.dropMark cs))

/-- The document that is complete with what has been read. -/
def ofBuilder (b : Builder) : Document :=
  { rootAttributes := b.rootAttributes
    bodyAttributes := b.bodyAttributes
    body := b.spine.complete }

/-- The document that a text gives. -/
def parse (cs : List Char) : Document :=
  ofBuilder (Builder.beforeBody {} (tokens cs))

/-- The document as a tree. -/
def root (d : Document) : Node :=
  .element .html d.rootAttributes
    [.element .head [] [], .element .body d.bodyAttributes d.body]

end Document

end Manpage.Html
