/-!
# Tags

The elements of a document by their tag names, and the classes of tags that decide where an
element may stand.

## Main definitions

* `Tag`: a tag name.
* `Tag.isSpecial`, `Tag.isHeading`, `Tag.isDefinition`, `Tag.isVoid`: classes of tags.
-/

namespace Manpage.Html

/-- A tag name.  The tags that a page can hold are told apart; `other` is any other name, in
lower case. -/
inductive Tag where
  | html | head | body | div | h1 | h2 | p | a | b | i | dl | dt | dd | br | pre
  | other (name : String)
  deriving DecidableEq, Repr

namespace Tag

/-- The tag with its name in lower case. -/
def ofName (name : String) : Tag :=
  if name = "html" then html
  else if name = "head" then head
  else if name = "body" then body
  else if name = "div" then div
  else if name = "h1" then h1
  else if name = "h2" then h2
  else if name = "p" then p
  else if name = "a" then a
  else if name = "b" then b
  else if name = "i" then i
  else if name = "dl" then dl
  else if name = "dt" then dt
  else if name = "dd" then dd
  else if name = "br" then br
  else if name = "pre" then pre
  else other name

/-- The name of a tag. -/
def name : Tag → String
  | html => "html"
  | head => "head"
  | body => "body"
  | div => "div"
  | h1 => "h1"
  | h2 => "h2"
  | p => "p"
  | a => "a"
  | b => "b"
  | i => "i"
  | dl => "dl"
  | dt => "dt"
  | dd => "dd"
  | br => "br"
  | pre => "pre"
  | other name => name

/-- Elements that shape the document: an end tag of another kind does not reach past them. -/
def isSpecial : Tag → Bool
  | a | b | i | other _ => false
  | _ => true

/-- Headings. -/
def isHeading : Tag → Bool
  | h1 | h2 => true
  | _ => false

/-- The term and the description of a definition list. -/
def isDefinition : Tag → Bool
  | dt | dd => true
  | _ => false

/-- Elements without content, which have no end tag. -/
def isVoid : Tag → Bool
  | br => true
  | _ => false

end Tag

end Manpage.Html
