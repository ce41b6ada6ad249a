/-!
# Fragments of written markup

The HTML of a page is written as a list of fragments: characters of text, each already safe, and
pieces of markup from a fixed stock.  Nothing a page says can become a fragment of the second
kind by itself, so what is markup in the output is decided here.

## Main definitions

* `Fragment`: a piece of written HTML.
* `Fragment.chars`: the characters of a fragment.
* `render`: the text of a list of fragments.
* `escape`: plain text as fragments.
-/

namespace Manpage.Markup

/-- The elements whose start tags carry no attributes. -/
inductive Element where
  | html | body | h1 | h2 | p | b | i | dl | dt | dd | pre
  deriving DecidableEq, Repr

/-- The tag name of an element. -/
def Element.name : Element → String
  | html => "html"
  | body => "body"
  | h1 => "h1"
  | h2 => "h2"
  | p => "p"
  | b => "b"
  | i => "i"
  | dl => "dl"
  | dt => "dt"
  | dd => "dd"
  | pre => "pre"

/-- A piece of written HTML. -/
inductive Fragment where
  /-- A character that stands for itself. -/
  | char (c : Char)
  /-- The reference `&lt;`. -/
  | less
  /-- The reference `&gt;`. -/
  | greater
  /-- The reference `&amp;`. -/
  | ampersand
  /-- The reference `&nbsp;`. -/
  | blank
  /-- The numeric reference to a code point. -/
  | code (n : Nat)
  /-- A line break of preformatted text. -/
  | newline
  /-- A start tag. -/
  | opening (e : Element)
  /-- An end tag. -/
  | closing (e : Element)
  /-- A `br` element. -/
  | lineBreak
  /-- The start tag of the division that holds the page. -/
  | pageStart
  /-- The start tag of a section, as far as the value of its `id`. -/
  | sectionStart
  /-- The start tag of a section, from the end of its `id` on. -/
  | sectionClass
  /-- The end tag of a division. -/
  | divisionEnd
  /-- The start tag of an anchor, as far as the value of its `href`. -/
  | anchorStart
  /-- The end of a start tag whose last attribute value is open. -/
  | valueEnd
  /-- The end tag of an anchor. -/
  | anchorEnd
  deriving DecidableEq, Repr

/-- The characters of a fragment. -/
def Fragment.chars : Fragment → List Char
  | char c => [c]
  | less => '&' :: "lt;".toList
  | greater => '&' :: "gt;".toList
  | ampersand => '&' :: "amp;".toList
  | blank => '&' :: "nbsp;".toList
  | code n => '&' :: '#' :: (Nat.toDigits 10 n ++ [';'])
  | newline => ['\n']
  | opening e => '<' :: (e.name.toList ++ ['>'])
  | closing e => '<' :: '/' :: (e.name.toList ++ ['>'])
  | lineBreak => '<' :: "br/>".toList
  | pageStart => '<' :: "div class=\"man-page\">".toList
  | sectionStart => '<' :: "div id=\"".toList
  | sectionClass => '"' :: " class=\"section\">".toList
  | divisionEnd => '<' :: "/div>".toList
  | anchorStart => '<' :: "a href=\"".toList
  | valueEnd => ['"', '>']
  | anchorEnd => '<' :: "/a>".toList

/-- The text of a list of fragments. -/
def render (fragments : List Fragment) : List Char :=
  fragments.flatMap Fragment.chars

/-! ## Plain text -/

/-- A single character of plain text.  Outside printable ASCII it is written as a numeric
reference, and the three characters that HTML reads as markup have names. -/
def Fragment.ofChar (c : Char) : Fragment :=
  if c = '<' then less
  else if c = '>' then greater
  else if c = '&' then ampersand
  else if c < ' ' ∨ '~' < c then code c.toNat
  else char c

/-- Plain text as fragments.  A space that another space follows is written as a blank that does
not collapse, so a run of spaces keeps its width and still ends in a plain space. -/
def escape : List Char → List Fragment
  | [] => []
  | ' ' :: ' ' :: cs => .blank :: escape (' ' :: cs)
  | c :: cs => .ofChar c :: escape cs

/-- Characters of the library's own wording, which need no escaping. -/
def wording (s : String) : List Fragment :=
  s.toList.map .char

end Manpage.Markup
