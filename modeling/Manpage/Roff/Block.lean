import Manpage.Roff.State

/-!
# Requests for the structure of a page

The requests that set titles, sections, paragraphs, indents and preformatted blocks.

Each takes the state and its argument, and gives the new state with the fragments it writes.

## Main definitions

* `Block.title`, `Block.sectionHead`, `Block.paragraph`, `Block.pointer`: the frame of a page.
* `Block.hanging`, `Block.countdown`, `Block.leaveIndent`: hanging indents.
* `Block.startPreformatted`, `Block.endPreformatted`: preformatted blocks.
-/

namespace Manpage.Block

open Markup (Fragment)

/-! ## The frame of a page -/

/-- The title of a page: its first quoted argument. -/
def title (s : State) (args : List Char) : State × List Fragment :=
  match quotedArguments args with
  | [] => (s, [])
  | name :: _ =>
    let (s, text) := s.text name
    (s, [.pageStart, .opening .h1] ++ text ++ [.closing .h1])

/-- The head of a section called `name`.  Its heading links to itself. -/
def sectionFrame (name : List Fragment) : List Fragment :=
  [.sectionStart] ++ name ++ [.sectionClass, .opening .h2, .anchorStart, .char '#'] ++ name ++
    [.valueEnd] ++ name ++ [.anchorEnd, .closing .h2]

/-- A section, which ends the one before it.  Its name is the first quoted argument; without a
name there is no new section. -/
def sectionHead (s : State) (args : List Char) : State × List Fragment :=
  let before := if s.inSection then [.divisionEnd] else []
  match quotedArguments args with
  | [] => ({ s with inSection := false }, before)
  | name :: _ =>
    let (s, text) := s.argument name
    ({ s with inSection := true }, before ++ sectionFrame text)

/-- A paragraph, which ends the one before it. -/
def paragraph (s : State) : State × List Fragment :=
  ({ s with inParagraph := true },
    (if s.inParagraph then [.closing .p] else []) ++ [.opening .p])

/-- The page and the section that a reference such as `man1/grep.1` names.  What follows the
first slash is the file; its first period ends the page. -/
def pointerTarget (target : List Char) : List Char × List Char :=
  let file := ((Text.cut? (· == '/') target).map (·.2)).getD target
  (Text.cut? (· == '.') file).getD (file, file)

/-- A note that the page is a reference to another one. -/
def pointer (args : List Char) : List Fragment :=
  match quotedArguments args with
  | [] => []
  | first :: _ =>
    let target := Text.trim first
    let (page, sect) := pointerTarget target
    [.pageStart, .sectionStart] ++ Markup.wording "NOTE" ++
      [.sectionClass, .opening .h2, .anchorStart] ++ Markup.wording "#NOTE" ++ [.valueEnd] ++
      Markup.wording "NOTE" ++ [.anchorEnd, .closing .h2] ++
      Markup.wording " This manpage is a reference to another. See " ++
      [.opening .b, .anchorStart, .char '/'] ++ Markup.escape target ++ [.valueEnd] ++
      Markup.escape page ++ Markup.wording " (" ++ Markup.escape sect ++ Markup.wording ")" ++
      [.anchorEnd, .closing .b, .char '.', .divisionEnd, .divisionEnd]

/-! ## Indents -/

/-- The start of an indented list. -/
def listStart : List Fragment := [.opening .dl, .opening .dd]

/-- The end of an indented list. -/
def listEnd : List Fragment := [.closing .dd, .closing .dl]

/-- The term of an indented paragraph.  Without quotes it is the whole argument; blank arguments
give no term. -/
def term? (args : List Char) : Option (List Char) :=
  match args with
  | '"' :: '"' :: _ => none
  | '"' :: _ => (quotedArguments args).head?
  | _ => if Text.isBlankText args then none else some args

/-- An indented paragraph, with or without a term. -/
def hanging (s : State) (args : List Char) : State × List Fragment :=
  match term? args with
  | some term =>
    let (s, text) := s.argument term
    ({ s with indent := .body },
      [.opening .dl, .opening .dt] ++ text ++ [.closing .dt, .opening .dd])
  | none => ({ s with indent := .body }, listStart)

/-- Ends an indent whose body is open. -/
def leaveIndent (s : State) : State × List Fragment :=
  if s.indent = .body then ({ s with indent := .none }, listEnd) else (s, [])

/-- The step that every line takes towards the body of a hanging indent. -/
def countdown (s : State) : State × List Fragment :=
  match s.indent with
  | .requested => ({ s with indent := .term }, [.opening .dl, .opening .dt])
  | .term => ({ s with indent := .body }, [.closing .dt, .opening .dd])
  | _ => (s, [])

/-! ## Preformatted blocks and descriptions -/

/-- The start of a preformatted block. -/
def startPreformatted (s : State) : State × List Fragment :=
  ({ s with inPreformatted := true }, [.opening .pre])

/-- The end of a preformatted block; its argument is text after it. -/
def endPreformatted (s : State) (args : List Char) : State × List Fragment :=
  let (s, text) := { s with inPreformatted := false }.argument args
  (s, [.closing .pre, .char ' '] ++ text)

/-- The description of a command. -/
def description (s : State) (args : List Char) : State × List Fragment :=
  let (s, text) := s.argument args
  (s, Markup.wording " - " ++ text)

end Manpage.Block
