import Manpage.Roff.State
import Manpage.Text.Word

/-!
# Requests for words

The requests that set their argument within the line: words in a font, flags, optional
arguments, the name of the command and references to other pages.

Each takes the state and its argument, and gives the new state with the fragments it writes.

## Main definitions

* `Inline.words`: the words of a piece of set text.
* `Inline.styled`, `Inline.boldItalic`: text in a font.
* `Inline.flags`, `Inline.optional`: the synopsis of a command.
* `Inline.commandName`: the name of the command, which a page can repeat by leaving it out.
* `Inline.reference`: a reference to another page, or a bold word.
-/

namespace Manpage.Inline

open Markup (Fragment Element)

/-- The words of a piece of set text, empty ones included: what stands between plain spaces. -/
def splitWords (text : List Fragment) : List (List Fragment) :=
  Text.pieces (· == .char ' ') text

/-- The words of a piece of set text. -/
def words (text : List Fragment) : List (List Fragment) :=
  (splitWords text).filter (· ≠ [])

/-- The argument inside the elements `es`, with a space on either side. -/
def styled (es : List Element) (s : State) (args : List Char) : State × List Fragment :=
  let (s, text) := s.argument args
  (s, .char ' ' :: es.map .opening ++ text ++ es.reverse.map .closing ++ [.char ' '])

/-- Bold italic text.  In a preformatted block, quoted arguments are the parts of a prototype:
they are set one after the other, without regard to escapes, and end the line. -/
def boldItalic (s : State) (args : List Char) : State × List Fragment :=
  if s.inPreformatted && args.contains '"' then
    (s, [.char ' ', .opening .b, .opening .i] ++ (quotedArguments args).flatMap Markup.escape ++
      [.closing .i, .closing .b, .newline])
  else
    let (s, text) := s.argument args
    (s, [.char ' ', .opening .b, .opening .i] ++ text ++
      [.closing .i, .closing .b, .char ' '])

/-! ## The synopsis of a command -/

/-- Whether a word that starts with this fragment takes a dash: a letter, a digit, an
underscore, or a character that is written as a reference. -/
def takesDash : Fragment → Bool
  | .char c => c.isAlphanum || c == '_'
  | .less | .greater | .ampersand | .blank | .code _ => true
  | _ => false

/-- A word with a dash in front, if it takes one. -/
def dashed (word : List Fragment) : List Fragment :=
  if word.head?.any takesDash then .char '-' :: word else word

/-- Command-line flags: each word takes a dash. -/
def flags (s : State) (args : List Char) : State × List Fragment :=
  let (s, text) := s.argument args
  (s, .char ' ' :: Text.joinWith [.char ' '] ((words text).map dashed))

/-- Whether a word reads `name`, whatever the case of its letters. -/
def reads (word : List Fragment) (name : String) : Bool :=
  (Markup.render word).map Char.toLower == name.toList

/-- The words of an optional part.  The word `fl` gives the next word a dash, and the word `ar`
makes it italic. -/
def optionalWords : (dash italic : Bool) → List (List Fragment) → List (List Fragment)
  | _, _, [] => []
  | dash, italic, word :: rest =>
    if reads word "fl" then optionalWords true italic rest
    else if reads word "ar" then optionalWords dash true rest
    else
      let word := if dash then .char '-' :: word else word
      let word := if italic then .opening .i :: word ++ [.closing .i] else word
      word :: optionalWords false false rest

/-- An optional part of the synopsis, in brackets. -/
def optional (s : State) (args : List Char) : State × List Fragment :=
  let (s, text) := s.argument args
  (s, [.char ' ', .char '['] ++
    Text.joinWith [.char ' '] (optionalWords false false (words text)) ++ [.char ']'])

/-! ## The name of the command -/

/-- Whether a line is a control line. -/
def isControl (line : List Char) : Bool :=
  match line with
  | '.' :: _ => true
  | '\'' :: _ => true
  | _ => false

/-- The name to write for the argument `args`: the argument, or the name known so far if the
argument holds no word. -/
def nameToWrite (s : State) (args : List Char) : List Char :=
  match Text.firstWord? args, s.commandName with
  | none, some name => if Text.isBlankText name then args else name
  | _, _ => args

/-- The name of the command, in bold.  The first word of the argument is remembered, and an
argument without a word repeats the name that is remembered.  After a control line the name
starts a line. -/
def commandName (s : State) (args : List Char) : State × List Fragment :=
  let s := { s with commandName := (Text.firstWord? args).or s.commandName }
  let lineBreak := if s.lastLine.any isControl then [.lineBreak] else []
  let (s', text) := styled [.b] s (nameToWrite s args)
  (s', lineBreak ++ text)

/-! ## References to other pages -/

/-- Whether `c` can be the second character of a section. -/
def isSectionChar (c : Char) : Bool :=
  c.isAlphanum || c == '_'

/-- The section named by a word such as `(1)` or `(3p),`, and what follows its parenthesis. -/
def section? : List Fragment → Option (List Fragment × List Fragment)
  | .char '(' :: .char d :: .char ')' :: rest =>
    if d.isDigit && !rest.contains .newline then some ([.char d], rest) else none
  | .char '(' :: .char d :: .char c :: .char ')' :: rest =>
    if d.isDigit && isSectionChar c && !rest.contains .newline then
      some ([.char d, .char c], rest)
    else none
  | _ => none

/-- A link to the page `page` of the section `sect`. -/
def pageLink (page sect : List Fragment) : List Fragment :=
  [.anchorStart] ++ Markup.wording "/man" ++ sect ++ [.char '/'] ++ page ++ [.char '.'] ++ sect ++
    [.valueEnd, .opening .b] ++ page ++ [.closing .b, .char '('] ++ sect ++
    [.char ')', .anchorEnd]

/-- A bold word followed by words in the current font. -/
def boldFirst : List (List Fragment) → List Fragment
  | [] => [.char ' ', .opening .b, .closing .b]
  | word :: rest =>
    [.char ' ', .opening .b] ++ word ++ [.closing .b] ++ rest.flatMap (.char ' ' :: ·)

/-- The fragments for the words of a reference: a link for a page and its section, else a bold
word followed by the others. -/
def referenceWords : List (List Fragment) → List Fragment
  | [page, sect] =>
    match section? sect with
    | some (sect, rest) => .char ' ' :: pageLink page sect ++ rest
    | none => boldFirst [page, sect]
  | words => boldFirst words

/-- A reference to another page, or a bold word.  Without an argument, a line break. -/
def reference (s : State) (args : List Char) : State × List Fragment :=
  if args = [] then (s, [.lineBreak])
  else
    let (s, text) := s.argument args
    (s, referenceWords (splitWords text))

end Manpage.Inline
