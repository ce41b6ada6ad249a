import Manpage.Markup.Fragment
import Manpage.Roff.Item

/-!
# Running text

How a piece of running text is written.  Its items leave marks on the page: characters, seams
where an escape stood, and changes of font.  The marks are then written as fragments, with the
font carried along.

## Main definitions

* `Mark`: what an item leaves on the page.
* `marks`: the marks of a list of items.
* `write`: the marks as fragments.
* `lastFont`: the font after a list of marks.
-/

namespace Manpage

open Markup (Fragment)

namespace Font

/-- The end tag of a font. -/
def closing : Font → List Fragment
  | roman => []
  | bold => [.closing .b]
  | italic => [.closing .i]

/-- The start tag of a font. -/
def opening : Font → List Fragment
  | roman => []
  | bold => [.opening .b]
  | italic => [.opening .i]

end Font

/-- What an item leaves on the page. -/
inductive Mark where
  /-- A character of text. -/
  | char (c : Char)
  /-- A place where an escape stood.  Spaces on its two sides do not form one run. -/
  | seam
  /-- A change of font. -/
  | font (f : Font)
  deriving DecidableEq, Repr

namespace RunningText

/-- The marks of an escape. -/
def escapeMarks : Escape → List Mark
  | .font f => [.seam, .font f]
  | .text cs => .seam :: cs.map .char

/-- The marks of a list of items.  Double quotes leave none.  In an argument (`collapse`) a space
outside quotes is dropped if the last item before it, quotes aside, was a plain space. -/
def marks (collapse : Bool) : (inQuotes afterSpace : Bool) → List Item → List Mark
  | _, _, [] => []
  | inQuotes, afterSpace, .quote :: items => marks collapse (!inQuotes) afterSpace items
  | inQuotes, afterSpace, .char c :: items =>
    if collapse && !inQuotes && afterSpace && c == ' ' then marks collapse inQuotes afterSpace items
    else .char c :: marks collapse inQuotes (c == ' ') items
  | inQuotes, _, .escape e :: items => escapeMarks e ++ marks collapse inQuotes false items

/-- The fragment of the character `c` before the marks `rest`. -/
def writeChar (c : Char) : List Mark → Fragment
  | .char ' ' :: _ => if c = ' ' then .blank else .ofChar c
  | _ => .ofChar c

/-- Marks as fragments, starting in the font `f`. -/
def write (f : Font) : List Mark → List Fragment
  | [] => []
  | .char c :: rest => writeChar c rest :: write f rest
  | .seam :: rest => write f rest
  | .font g :: rest => f.closing ++ g.opening ++ write g rest

/-- The font after a list of marks that starts in the font `f`. -/
def lastFont (f : Font) : List Mark → Font
  | [] => f
  | .font g :: rest => lastFont g rest
  | _ :: rest => lastFont f rest

/-- The marks of the text `cs`. -/
def textMarks (collapse : Bool) (cs : List Char) : List Mark :=
  marks collapse false false (Item.scan cs)

end RunningText

end Manpage
