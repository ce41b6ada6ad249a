import Manpage.Archive.Bzip2.Randomized
import Manpage.Archive.Digest
import Manpage.Archive.PrefixCode

/-!
# Bzip2

A bzip2 file: blocks whose bytes are sorted by what follows them, moved to front, run-length coded
and written under prefix codes that change every fifty symbols.  Only the first stream of a file
counts.

## Main definitions

* `Bzip2.Spelled`: the sorted bytes that symbols spell.
* `Bzip2.unsort`, `Bzip2.expandRuns`: the steps from sorted bytes to content.
* `Bzip2.block`: a block.
* `Bzip2.unpack`: the content of a file.
-/

namespace Manpage.Archive.Bzip2

open BitReader (bit highNumber require check left many)

/-! ## The codes of a block -/

/-- The longest word of a code. -/
def longestWord : Nat := 20

/-- How many symbols are read under one code before the next one is chosen. -/
def groupSize : Nat := 50

/-- The bytes that occur in a block: sixteen bits say which groups of sixteen do, and sixteen bits
for each of these which of its bytes do. -/
def usedBytes : BitReader (List UInt8) := do
  let groups ← many bit 16
  let used ← groups.mapM fun b => if b then many bit 16 else pure (List.replicate 16 false)
  return (List.range 256).filterMap fun n =>
    if used.flatten.getD n false then some n.toUInt8 else none

/-- A number written as that many ones and a zero; it must be below `bound`. -/
def unary : (bound : Nat) → BitReader Nat
  | 0 => throw .invalid
  | bound + 1 => do
    if ← bit then return (← unary bound) + 1 else return 0

/-- The member of `xs` at the index `i`, and `xs` with it moved to the front. -/
def moveToFront? {α : Type} (xs : List α) (i : Nat) : Option (α × List α) :=
  xs[i]?.map fun x => (x, x :: xs.eraseIdx i)

/-- The codes chosen by indices into a list where each choice moves to the front. -/
def choose {α : Type} (codes : List α) : List Nat → BitReader (List α)
  | [] => pure []
  | i :: indices => do
    let (code, codes) ← require (moveToFront? codes i)
    return code :: (← choose codes indices)

/-- A word length, counted from the last one; `fuel` bounds the steps. -/
def wordLength (last : Nat) : (fuel : Nat) → BitReader Nat
  | 0 => throw .invalid
  | fuel + 1 => do
    check (1 ≤ last && last ≤ longestWord)
    if ← bit then
      if ← bit then wordLength (last - 1) fuel else wordLength (last + 1) fuel
    else return last

/-- The word lengths of `n` symbols. -/
def wordLengths (last : Nat) : (n : Nat) → BitReader (List Nat)
  | 0 => pure []
  | n + 1 => do
    let length ← wordLength last ((← left) + 1)
    return length :: (← wordLengths length n)

/-- The code for `n` symbols. -/
def readCode (n : Nat) : BitReader PrefixCode := do
  let lengths ← wordLengths (← highNumber 5) n
  require (PrefixCode.ofLengths? longestWord lengths)

/-! ## The symbols of a block -/

/-- What the symbols so far spell. -/
structure Spelled where
  /-- The bytes of the block, the last one first. -/
  front : List UInt8
  /-- The sorted bytes. -/
  out : Array UInt8 := #[]
  /-- How long the run at the end is. -/
  run : Nat := 0
  /-- What the next digit of its length counts. -/
  weight : Nat := 1

/-- The most bytes that a block of a given level can hold. -/
def blockSize (level : Nat) : Nat := 100000 * level

/-- With `n` more bytes `b`, at most `limit` bytes in all. -/
def Spelled.push (limit n : Nat) (b : UInt8) (s : Spelled) : Option Spelled :=
  if s.out.size + n ≤ limit then some { s with out := s.out ++ Array.replicate n b } else none

/-- With the run at its end. -/
def Spelled.endRun (limit : Nat) (s : Spelled) : Option Spelled :=
  { s with run := 0, weight := 1 }.push limit s.run (s.front.headD 0)

/-- The greatest weight of a digit. -/
def greatestWeight : Nat := 1 <<< 20

/-- With one more symbol.  The symbols 0 and 1 spell the length of a run of the byte in front, with
the digits 1 and 2, the lowest first.  Any other moves the byte at its index less one to the
front. -/
def Spelled.add (limit : Nat) (s : Spelled) (symbol : Nat) : Option Spelled :=
  if symbol ≤ 1 then
    if s.weight ≤ greatestWeight then
      some { s with run := s.run + (symbol + 1) * s.weight, weight := 2 * s.weight }
    else none
  else do
    let s ← s.endRun limit
    let (b, front) ← moveToFront? s.front (symbol - 1)
    { s with front }.push limit 1 b

/-- Reads at most `n` symbols under one code, up to the symbol `last`, and says whether that has
come. -/
def group (limit : Nat) (code : PrefixCode) (last : Nat) :
    (n : Nat) → Spelled → BitReader (Spelled × Bool)
  | 0, spelled => pure (spelled, false)
  | n + 1, spelled => do
    let s ← code.read (longestWord + 1)
    if s = last then return (spelled, true)
    else group limit code last n (← require (spelled.add limit s))

/-- Reads the symbols of a block up to the symbol `last`, under one code after the other. -/
def symbols (limit last : Nat) : List PrefixCode → Spelled → BitReader Spelled
  | [], _ => throw .invalid
  | code :: codes, spelled => do
    let (spelled, isEnd) ← group limit code last groupSize spelled
    if isEnd then require (spelled.endRun limit) else symbols limit last codes spelled

/-! ## From sorted bytes to content -/

/-- The indices of sorted bytes, each where the byte before it leads. -/
def successors (sorted : Array UInt8) : Array Nat :=
  ((List.range sorted.size).mergeSort fun i j => sorted.getD i 0 ≤ sorted.getD j 0).toArray

/-- The next `n` bytes along the successors, from the index `i` on. -/
def follow (sorted : Array UInt8) (next : Array Nat) : (n i : Nat) → List UInt8
  | 0, _ => []
  | n + 1, i => sorted.getD i 0 :: follow sorted next n (next.getD i 0)

/-- The bytes in their order, where `origin` is the index at which the first one is found. -/
def unsort (sorted : Array UInt8) (origin : Nat) : List UInt8 :=
  let next := successors sorted
  follow sorted next sorted.size (next.getD origin 0)

/-- Bytes with runs expanded, and the run at their end. -/
structure Expanded where
  out : Array UInt8 := #[]
  /-- The last byte. -/
  last : UInt8 := 0
  /-- How many bytes equal to it have come. -/
  count : Nat := 0

/-- With one more byte: after four equal ones, it says how many more there are. -/
def Expanded.add (e : Expanded) (b : UInt8) : Expanded :=
  if e.count = 4 then { e with out := e.out ++ Array.replicate b.toNat e.last, count := 0 }
  else
    { out := e.out.push b
      last := b
      count := if e.count ≠ 0 ∧ b = e.last then e.count + 1 else 1 }

/-- Bytes with runs expanded.  They may not end where a number must follow. -/
def expandRuns (bytes : List UInt8) : Option (List UInt8) :=
  let e := bytes.foldl Expanded.add {}
  if e.count = 4 then none else some e.out.toList

/-! ## Blocks and files -/

/-- Reads the bytes `expected` and no others. -/
def expect : (expected : List Nat) → BitReader Unit
  | [] => pure ()
  | b :: rest => do
    check ((← highNumber 8) == b)
    expect rest

/-- Reads the mark at the start of a block or at the end of the stream, and says whether a block
follows. -/
def startsBlock : BitReader Bool := do
  let first ← highNumber 8
  if first = 0x31 then
    expect [0x41, 0x59, 0x26, 0x53, 0x59]
    return true
  else
    check (first == 0x17)
    expect [0x72, 0x45, 0x38, 0x50, 0x90]
    return false

/-- The most groups of symbols that a block can have use for. -/
def mostGroups : Nat := 18002

/-- A block after its mark: its content and its checksum. -/
def block (level : Nat) : BitReader (List UInt8 × Nat) := do
  let checksum ← highNumber 32
  let isRandomized ← bit
  let origin ← highNumber 24
  check (origin ≤ 10 + blockSize level)
  let bytes ← usedBytes
  check (bytes ≠ [])
  let codeCount ← highNumber 3
  check (2 ≤ codeCount && codeCount ≤ 6)
  let groupCount ← highNumber 15
  check (1 ≤ groupCount)
  let choices ← many (unary codeCount) groupCount
  let codes ← many (readCode (bytes.length + 2)) codeCount
  let chosen ← choose codes (choices.take mostGroups)
  let spelled ← symbols (blockSize level) (bytes.length + 1) chosen { front := bytes }
  check (origin < spelled.out.size)
  let unsorted := unsort spelled.out origin
  let restored := if isRandomized then Randomized.restore unsorted else unsorted
  let content ← require (expandRuns restored)
  check (Checksum.crc32High content == checksum)
  return (content, checksum)

/-- The checksum of blocks with that of one more. -/
def combine (combined checksum : Nat) : Nat :=
  ((combined * 2 ^^^ combined >>> 31) ^^^ checksum) % 1 <<< 32

/-- Blocks through the end of the stream, at most `fuel` of them; `combined` is the checksum of
those before. -/
def blocks (level : Nat) : (fuel combined : Nat) → BitReader (List UInt8)
  | 0, _ => throw .invalid
  | fuel + 1, combined => do
    if ← startsBlock then
      let (content, checksum) ← block level
      return content ++ (← blocks level fuel (combine combined checksum))
    else
      check ((← highNumber 32) == combined)
      return []

/-- The level that the header of a file gives, and what follows it. -/
def header : Bytes → Except Error (Nat × Bytes)
  | 0x42 :: 0x5A :: 0x68 :: level :: rest =>
    if 0x31 ≤ level ∧ level ≤ 0x39 then .ok (level.toNat - 0x30, rest) else .error .bzip2Header
  | bytes => if bytes.isPrefixOf [0x42, 0x5A, 0x68] then .error .bzip2Ends else .error .bzip2Header

/-- The content of a file. -/
def unpack (bytes : Bytes) : Except Error Bytes := do
  let (level, rest) ← header bytes
  let bits := Bits.highFirst rest
  match blocks level (bits.length + 1) 0 bits with
  | .ok (content, _) => return content
  | .error .ends => throw .bzip2Ends
  | .error .invalid => throw .bzip2Data

end Manpage.Archive.Bzip2
