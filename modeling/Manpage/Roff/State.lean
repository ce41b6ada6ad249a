import Manpage.Roff.Request
import Manpage.Roff.RunningText

/-!
# The state of a page

What a page remembers from one line to the next while it is set, and how it sets running text.

## Main definitions

* `Indent`: how far a hanging indent has got.
* `State`: what the page remembers.
* `State.text`, `State.argument`: running text as fragments, with the state after it.
-/

namespace Manpage

open Markup (Fragment)

/-- How far a hanging indent has got. -/
inductive Indent where
  /-- There is none. -/
  | none
  /-- Asked for on this line; its term is the next line. -/
  | requested
  /-- In the term. -/
  | term
  /-- In the body. -/
  | body
  deriving DecidableEq, Repr

/-- What a page remembers from one line to the next. -/
structure State where
  /-- The current font. -/
  font : Font := .roman
  /-- The last request that was understood. -/
  lastRequest : Option Request := .none
  /-- The last line, comments aside. -/
  lastLine : Option (List Char) := .none
  /-- The name of the command, once it is known. -/
  commandName : Option (List Char) := .none
  /-- Whether a paragraph is open. -/
  inParagraph : Bool := false
  /-- Whether a section is open. -/
  inSection : Bool := false
  /-- Whether text is preformatted. -/
  inPreformatted : Bool := false
  /-- The hanging indent. -/
  indent : Indent := .none
  deriving DecidableEq, Repr

namespace State

/-- Running text with the state after it.  Only the font can change, and each piece of
preformatted text ends its line. -/
def setText (collapse : Bool) (s : State) (cs : List Char) : State × List Fragment :=
  let marks := RunningText.textMarks collapse cs
  ({ s with font := RunningText.lastFont s.font marks },
    RunningText.write s.font marks ++ if s.inPreformatted then [.newline] else [])

/-- The text of a line. -/
def text (s : State) (cs : List Char) : State × List Fragment :=
  s.setText false cs

/-- The text of a request's argument, where runs of spaces outside quotes separate words and
count as one. -/
def argument (s : State) (cs : List Char) : State × List Fragment :=
  s.setText true cs

end State

end Manpage
