import Manpage.Archive.Bits

/-!
# Prefix codes

A prefix code gives each symbol a string of bits, such that none is the start of another.  It is a
tree: reading a symbol walks down from the root, one bit a step.

The codes of compressed data are canonical: they are given by the lengths of the code words alone,
and words of one length are consecutive numbers in the order of their symbols.

## Main definitions

* `PrefixCode`: a prefix code.
* `PrefixCode.ofLengths?`: the canonical code with given word lengths.
* `PrefixCode.read`: a symbol.
-/

namespace Manpage.Archive

/-- A prefix code. -/
inductive PrefixCode where
  /-- No word starts here. -/
  | unused
  /-- The word of a symbol ends here. -/
  | symbol (s : Nat)
  /-- Words go on with a zero or a one. -/
  | branch (zero one : PrefixCode)
  deriving Repr

namespace PrefixCode

/-- The code with one more word; nothing if the word is the start of another one or starts with
it. -/
def insert? (word : List Bool) (s : Nat) (code : PrefixCode) : Option PrefixCode :=
  match word, code with
  | [], unused => some (symbol s)
  | b :: word, unused => if b then (insert? word s unused).map (branch unused ·)
      else (insert? word s unused).map (branch · unused)
  | b :: word, branch zero one => if b then (insert? word s one).map (branch zero ·)
      else (insert? word s zero).map (branch · one)
  | _, _ => none

/-- The `n` lowest bits of `number`, the highest first. -/
def word (n number : Nat) : List Bool :=
  (List.range n).reverse.map number.testBit

/-- The symbols whose words have the length `n`. -/
def symbolsOfLength (lengths : List Nat) (n : Nat) : List Nat :=
  (List.range lengths.length).filter fun s => lengths[s]? == some n

/-- The canonical words of length `n` and more, up to a greatest length, when the shorter words
use up all numbers below `first / 2`. -/
def wordsFrom (lengths : List Nat) (n first : Nat) : (more : Nat) → List (List Bool × Nat)
  | 0 => []
  | more + 1 =>
    let symbols := symbolsOfLength lengths n
    (symbols.take (1 <<< n - first)).mapIdx (fun i s => (word n (first + i), s)) ++
      wordsFrom lengths (n + 1) (2 * (first + symbols.length)) more

/-- Words of the greatest length that all words together take up. -/
def usedSpace (longest : Nat) (lengths : List Nat) : Nat :=
  lengths.foldl (fun used n => if n = 0 then used else used + 1 <<< (longest - n)) 0

/-- The canonical code with the word lengths `lengths`, none above `longest`; a symbol of length 0
has no word.  Where all numbers of a length are used up, the symbols that are left have no word
either. -/
def ofLengths? (longest : Nat) (lengths : List Nat) : Option PrefixCode :=
  (wordsFrom lengths 1 0 longest).foldlM (fun code (word, s) => code.insert? word s) unused

/-- Whether the word lengths leave no string of bits without a meaning, and none with two. -/
def isComplete (longest : Nat) (lengths : List Nat) : Bool :=
  usedSpace longest lengths == 1 <<< longest

/-- A symbol.  A string of bits without a meaning is read until there are `most` bits. -/
def read : PrefixCode → (most : Nat) → BitReader Nat
  | unused, most => do
    let _ ← BitReader.many BitReader.bit most
    throw .invalid
  | symbol s, _ => pure s
  | branch zero one, most => do
    if ← BitReader.bit then one.read (most - 1) else zero.read (most - 1)

end PrefixCode

end Manpage.Archive
