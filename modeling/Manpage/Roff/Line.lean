import Manpage.Roff.Block
import Manpage.Roff.Inline

/-!
# Lines

A line that ends in a backslash continues on the next one.  Of the logical lines that this gives, a
comment leaves no trace, a control line makes a request, and every other line is text.

## Main definitions

* `Continuation.logicalLines`: lines joined at their continuations.
* `Continuation.attempt`: the lines before the first failure, or that failure.
* `isComment`, `Inline.isControl`: the kinds of lines.
* `splitRequest`: the name and the argument on a control line.
* `State.perform`: a request with its argument.
* `State.control`: a control line, with a bound on the requests that items make.
* `State.feed`: a logical line.
-/

namespace Manpage

/-! ## Continuation lines

Lines come from a source that can fail at any point; a failure inside a continued line takes the
place of the line. -/

namespace Continuation

variable {ε : Type}

/-- The logical lines of `items`, where `before` is the part of a line that the first of them
continues, from its last character to its first. -/
def logicalLinesFrom (before : Option (List Char)) :
    List (Except ε (List Char)) → List (Except ε (List Char))
  | [] => before.toList.map fun part => .ok part.reverse
  | .error e :: items => .error e :: logicalLinesFrom none items
  | .ok line :: items =>
    match line.reverse ++ before.getD [] with
    | '\\' :: part => logicalLinesFrom (some part) items
    | whole => .ok whole.reverse :: logicalLinesFrom none items

/-- Lines joined at their continuations. -/
def logicalLines (items : List (Except ε (List Char))) : List (Except ε (List Char)) :=
  logicalLinesFrom none items

/-- All lines, or the first failure. -/
def attempt : List (Except ε (List Char)) → Except ε (List (List Char))
  | [] => .ok []
  | .error e :: _ => .error e
  | .ok line :: items => (attempt items).map (line :: ·)

end Continuation

/-! ## Logical lines -/

open Markup (Fragment)

/-- Whether a line is a comment or a message. -/
def isComment (line : List Char) : Bool :=
  match line with
  | '\'' :: _ => true
  | '.' :: '\\' :: _ => true
  | '\\' :: '\\' :: _ => true
  | _ => false

/-- The name and the argument of a control line without its first character: the first space or
tab stands between them. -/
def splitRequest (body : List Char) : List Char × List Char :=
  (Text.cut? (fun c => c == ' ' || c == '\t') body).getD (body, [])

/-- How many requests deep an item can make requests of its own. -/
def maxNesting : Nat := 8

namespace State

/-- Performs a request.  `nested` is how the request made by an item is performed. -/
def perform (nested : List Char → State → State × List Fragment) (s : State) (r : Request)
    (args : List Char) : State × List Fragment :=
  match r with
  | .th | .dt => Block.title s args
  | .sh => Block.sectionHead s args
  | .pp | .lp | .p | .sp => Block.paragraph s
  | .so => (s, Block.pointer args)
  | .tp => ({ s with indent := .requested }, [])
  | .ip => Block.hanging s args
  | .bl | .rs => (s, Block.listStart)
  | .el | .re => (s, Block.listEnd)
  | .it =>
    let (s, text) := nested args s
    (s, Block.listStart ++ text ++ Block.listEnd)
  | .nf => Block.startPreformatted s
  | .fi => Block.endPreformatted s args
  | .nd => Block.description s args
  | .nm => Inline.commandName s args
  | .b => Inline.styled [.b] s args
  | .i | .ar => Inline.styled [.i] s args
  | .ri | .rb | .ir | .ib => Inline.styled [] s args
  | .bi => Inline.boldItalic s args
  | .br => Inline.reference s args
  | .fl => Inline.flags s args
  | .op => Inline.optional s args
  | .ie | .nh | .ad => (s, [])

/-- Performs a request after ending the indent that it ends, and remembers it. -/
def request (nested : List Char → State → State × List Fragment) (s : State) (r : Request)
    (args : List Char) : State × List Fragment :=
  let (s, before) := if r.endsIndent then Block.leaveIndent s else (s, [])
  let (s, text) := s.perform nested r args
  ({ s with lastRequest := some r }, before ++ text)

/-- Performs the request on a control line without its first character.  Unknown names are
skipped. -/
def requestLine (nested : List Char → State → State × List Fragment) (body : List Char)
    (s : State) : State × List Fragment :=
  let (name, args) := splitRequest body
  match Request.ofName? name with
  | some r => s.request nested r args
  | none => (s, [])

/-- Performs the request on a control line without its first character, where items make
requests at most `depth` deep. -/
def control : (depth : Nat) → (body : List Char) → State → State × List Fragment
  | 0 => requestLine fun _ s => (s, [])
  | depth + 1 => requestLine (control depth)

/-- Sets a line that is not a comment, before the countdown of indents. -/
def setLine (s : State) (line : List Char) : State × List Fragment :=
  if Inline.isControl line then control maxNesting (line.drop 1) s
  else
    let (s, text) := s.text line
    (s, .char ' ' :: text)

/-- Sets a logical line. -/
def feed (s : State) (line : List Char) : State × List Fragment :=
  if isComment line then (s, [])
  else
    let (s, text) := s.setLine line
    let (s, indent) := Block.countdown s
    ({ s with lastLine := some line }, text ++ indent)

/-- Sets logical lines one after the other. -/
def feedAll (s : State) : List (List Char) → State × List Fragment
  | [] => (s, [])
  | line :: lines =>
    let (s, text) := s.feed line
    let (s, rest) := feedAll s lines
    (s, text ++ rest)

/-- What is written after the last line. -/
def finish (s : State) : List Fragment :=
  (if s.inParagraph then [.closing .p] else []) ++ [.closing .body, .closing .html]

end State

end Manpage
