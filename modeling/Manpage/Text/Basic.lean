/-!
# Texts

Classes of characters, blanks and trimming, cutting at separators, lines, and the order of texts.

## Main definitions

* `inRanges`: whether a character lies in one of several ranges of code points.
* `isBlank`, `isBlankText`: blanks in the sense of Unicode (property `White_Space`).
* `trim`: a text without the blanks at its ends.
* `pieces`: everything between separators, empty pieces included.
* `cut?`: what stands before and after the first element with a property.
* `holds`: whether a list stands somewhere in another one.
* `lines`: the lines of a text.
* `dropMark`: a text without the byte order mark it starts with.
* `sorted`, `sortedSet`: texts in the order of their characters' code points.
-/

namespace Manpage.Text

/-- Whether `c` lies in one of `ranges` of code points, both ends included. -/
def inRanges (ranges : List (Nat × Nat)) (c : Char) : Bool :=
  ranges.any fun (first, last) => first ≤ c.toNat && c.toNat ≤ last

/-! ## Blanks -/

/-- Whether `c` is a blank. -/
def isBlank (c : Char) : Bool :=
  let n := c.toNat
  (9 ≤ n && n ≤ 13) || n == 0x20 || n == 0x85 || n == 0xA0 || n == 0x1680 ||
    (0x2000 ≤ n && n ≤ 0x200A) || n == 0x2028 || n == 0x2029 || n == 0x202F || n == 0x205F ||
    n == 0x3000

/-- `cs` without the blanks at its front. -/
def trimStart (cs : List Char) : List Char :=
  cs.dropWhile isBlank

/-- `cs` without the blanks at its end. -/
def trimEnd (cs : List Char) : List Char :=
  (cs.reverse.dropWhile isBlank).reverse

/-- `cs` without the blanks at either end. -/
def trim (cs : List Char) : List Char :=
  trimEnd (trimStart cs)

/-- Whether `cs` holds nothing but blanks. -/
def isBlankText (cs : List Char) : Bool :=
  cs.all isBlank

/-! ## Pieces -/

section Pieces

variable {α : Type}

/-- The pieces of `xs` between the elements that satisfy `sep`.  There is always one more piece
than there are separators. -/
def pieces (sep : α → Bool) : List α → List (List α)
  | [] => [[]]
  | x :: xs =>
    if sep x then [] :: pieces sep xs
    else match pieces sep xs with
      | [] => [[x]]
      | piece :: rest => (x :: piece) :: rest

/-- What stands before and after the first element that satisfies `sep`. -/
def cut? (sep : α → Bool) : List α → Option (List α × List α)
  | [] => none
  | x :: xs =>
    if sep x then some ([], xs)
    else (cut? sep xs).map fun (before, after) => (x :: before, after)

/-- Whether `part` stands somewhere in a list. -/
def holds [BEq α] (part : List α) : List α → Bool
  | [] => part.isEmpty
  | x :: xs => part.isPrefixOf (x :: xs) || holds part xs

/-- `xs` with `sep` between its members. -/
def joinWith (sep : List α) : List (List α) → List α
  | [] => []
  | [x] => x
  | x :: xs => x ++ sep ++ joinWith sep xs

end Pieces

/-! ## Lines

A line ends at a line feed.  A carriage return directly before the line feed belongs to the
ending; any other carriage return is part of the line. -/

/-- A line without the carriage return of its ending. -/
def dropReturn : List Char → List Char
  | [] => []
  | ['\r'] => []
  | c :: cs => c :: dropReturn cs

/-- The lines of a text whose pieces between line feeds are given.  The last piece has no line
feed after it, so it keeps its carriage return and, when it is empty, is no line. -/
def linesOfPieces : List (List Char) → List (List Char)
  | [] => []
  | [last] => if last = [] then [] else [last]
  | piece :: rest => dropReturn piece :: linesOfPieces rest

/-- The lines of a text. -/
def lines (cs : List Char) : List (List Char) :=
  linesOfPieces (pieces (· == '\n') cs)

/-- A text without the byte order mark it starts with; of several marks only the first is
dropped. -/
def dropMark : List Char → List Char
  | '\uFEFF' :: cs => cs
  | cs => cs

/-! ## Order -/

/-- Whether `a` does not come after `b`. -/
def notAfter (a b : List Char) : Bool :=
  !decide (b < a)

/-- Texts in the order of their code points. -/
def sorted (texts : List (List Char)) : List (List Char) :=
  texts.mergeSort notAfter

/-- Texts without those that repeat the one before them. -/
def dropRepeats : List (List Char) → List (List Char)
  | a :: b :: texts => if a = b then dropRepeats (b :: texts) else a :: dropRepeats (b :: texts)
  | texts => texts

/-- Texts in the order of their code points, each once. -/
def sortedSet (texts : List (List Char)) : List (List Char) :=
  dropRepeats (sorted texts)

end Manpage.Text
