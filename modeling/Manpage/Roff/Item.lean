import Manpage.Roff.Glyph

/-!
# Items of running text

The running text of a page is a sequence of items: plain characters, double quotes and escapes.
An escape starts with a backslash and takes as many characters as its form asks for; an
unfinished escape loses only its backslash.

## Main definitions

* `Font`: the fonts that are told apart.
* `Escape`: what an escape asks for.
* `Item`: an item of running text.
* `Item.scan`: the items of a text, from left to right.

## Main results

* `Item.length_next_le`: an item never leaves more text than there was.
-/

namespace Manpage

/-- The fonts that are told apart. -/
inductive Font where
  | roman
  | bold
  | italic
  deriving DecidableEq, Repr

/-- What an escape asks for. -/
inductive Escape where
  /-- A change of font. -/
  | font (f : Font)
  /-- Some text: a single character, or the text of a glyph. -/
  | text (cs : List Char)
  deriving DecidableEq, Repr

namespace Escape

/-- An escape without effect: spacing of no width, a font that is not told apart, a string. -/
def nothing : Escape := .text []

/-- The escape that stands for the character `c`. -/
def char (c : Char) : Escape := .text [c]

end Escape

/-- An item of running text. -/
inductive Item where
  /-- A plain character. -/
  | char (c : Char)
  /-- A double quote, which starts or ends a quoted part. -/
  | quote
  /-- An escape. -/
  | escape (e : Escape)
  deriving DecidableEq, Repr

namespace Item

/-- The rest of a text after a name in brackets whose opening bracket is already read; the name
runs to the end if no bracket closes it. -/
def afterBracket (cs : List Char) : List Char :=
  (cs.dropWhile (· ≠ ']')).drop 1

/-- The rest of a text after the name of a string: one character, or two after a parenthesis, or
all up to a closing bracket. -/
def afterStringName : List Char → List Char
  | [] => []
  | '(' :: cs => cs.drop 2
  | '[' :: cs => afterBracket cs
  | _ :: cs => cs

/-- The font escape that follows a backslash and an `f`, and the rest of the text.  Only fonts
named by the letters `B`, `I`, `R` and `P` change anything. -/
def fontEscape : List Char → Escape × List Char
  | [] => (.char 'f', [])
  | 'B' :: cs => (.font .bold, cs)
  | 'I' :: cs => (.font .italic, cs)
  | 'R' :: cs => (.font .roman, cs)
  | 'P' :: cs => (.font .roman, cs)
  | '(' :: cs => (.nothing, cs.drop 2)
  | '[' :: cs => (.nothing, afterBracket cs)
  | _ :: cs => (.nothing, cs)

/-- The glyph named by two characters, and the rest of the text. -/
def parenthesizedGlyph : List Char → Escape × List Char
  | a :: b :: cs => (.text (Glyph.text [a, b]), cs)
  | cs => (.char '(', cs)

/-- The glyph whose name a bracket closes, and the rest of the text. -/
def bracketedGlyph (cs : List Char) : Escape × List Char :=
  if ']' ∈ cs then (.text (Glyph.text (cs.takeWhile (· ≠ ']'))), afterBracket cs)
  else (.char '[', cs)

/-- The escape whose first character after the backslash is `c`, and the rest of the text. -/
def escapeAfter (c : Char) (cs : List Char) : Escape × List Char :=
  match c with
  | 'f' => fontEscape cs
  | '(' => parenthesizedGlyph cs
  | '[' => bracketedGlyph cs
  | '*' => (.nothing, afterStringName cs)
  | '&' => (.nothing, cs)
  | '^' => (.nothing, cs)
  | '|' => (.nothing, cs)
  | ':' => (.nothing, cs)
  | 'e' => (.char '\\', cs)
  | '0' => (.char ' ', cs)
  | '~' => (.char ' ', cs)
  | c => (.char c, cs)

/-- The item that starts with `c`, and the rest of the text.  A backslash at the end of the text
is a plain character. -/
def next (c : Char) (cs : List Char) : Item × List Char :=
  if c = '"' then (.quote, cs)
  else if c = '\\' then
    match cs with
    | [] => (.char c, [])
    | d :: rest => let (e, rest) := escapeAfter d rest; (.escape e, rest)
  else (.char c, cs)

/-! ## No item leaves more text than there was -/

theorem length_afterBracket_le (cs : List Char) : (afterBracket cs).length ≤ cs.length := by
  have h := (List.dropWhile_sublist (l := cs) (fun c => decide (c ≠ ']'))).length_le
  simp only [afterBracket, List.length_drop]
  omega

theorem length_escapeAfter_le (c : Char) (cs : List Char) :
    (escapeAfter c cs).2.length ≤ cs.length := by
  unfold escapeAfter
  split
  · unfold fontEscape
    split <;> grind [length_afterBracket_le]
  · unfold parenthesizedGlyph
    split <;> grind
  · unfold bracketedGlyph
    split <;> grind [length_afterBracket_le]
  · unfold afterStringName
    split <;> grind [length_afterBracket_le]
  all_goals exact Nat.le_refl _

theorem length_next_le (c : Char) (cs : List Char) : (next c cs).2.length ≤ cs.length := by
  unfold next
  split
  · exact Nat.le_refl _
  · split
    · split
      · exact Nat.le_refl _
      · next d rest => exact Nat.le_succ_of_le (length_escapeAfter_le d rest)
    · exact Nat.le_refl _

/-- The items of a text, from left to right. -/
def scan : List Char → List Item
  | [] => []
  | c :: cs => (next c cs).1 :: scan (next c cs).2
termination_by cs => cs.length
decreasing_by exact Nat.lt_succ_of_le (length_next_le c cs)

end Item

end Manpage
