import Manpage.Archive.PrefixCode

/-!
# Deflate

The compressed data of gzip: blocks of literal bytes and of references to what was written before,
both under prefix codes.

## Main definitions

* `Deflate.Codes`: the two codes of a block.
* `Deflate.inflate`: the bytes of compressed data.
-/

namespace Manpage.Archive.Deflate

open BitReader (lowNumber require check left many)

/-- The two codes of a block. -/
structure Codes where
  /-- Literal bytes, the end of the block, and the lengths of references. -/
  literals : PrefixCode
  /-- The distances of references. -/
  distances : PrefixCode

/-- The longest word of a code. -/
def longestWord : Nat := 15

/-- The shortest length under each length symbol, and how many further bits give the rest. -/
def lengthTable : List (Nat × Nat) :=
  [(3, 0), (4, 0), (5, 0), (6, 0), (7, 0), (8, 0), (9, 0), (10, 0), (11, 1), (13, 1), (15, 1),
    (17, 1), (19, 2), (23, 2), (27, 2), (31, 2), (35, 3), (43, 3), (51, 3), (59, 3), (67, 4),
    (83, 4), (99, 4), (115, 4), (131, 5), (163, 5), (195, 5), (227, 5), (258, 0)]

/-- The shortest distance under each distance symbol, and how many further bits give the rest. -/
def distanceTable : List (Nat × Nat) :=
  [(1, 0), (2, 0), (3, 0), (4, 0), (5, 1), (7, 1), (9, 2), (13, 2), (17, 3), (25, 3), (33, 4),
    (49, 4), (65, 5), (97, 5), (129, 6), (193, 6), (257, 7), (385, 7), (513, 8), (769, 8),
    (1025, 9), (1537, 9), (2049, 10), (3073, 10), (4097, 11), (6145, 11), (8193, 12), (12289, 12),
    (16385, 13), (24577, 13)]

/-- A length or a distance: an entry of a table with the bits that it asks for. -/
def tableNumber (table : List (Nat × Nat)) (s : Nat) : BitReader Nat := do
  let (base, extra) ← require table[s]?
  return base + (← lowNumber extra)

/-- `out` with `n` bytes more, each the byte `distance` before it.  Before the start there are
zeros. -/
def copy (distance : Nat) : (n : Nat) → Array UInt8 → Array UInt8
  | 0, out => out
  | n + 1, out =>
    let b := if distance ≤ out.size then out.getD (out.size - distance) 0 else 0
    copy distance n (out.push b)

/-- Reads the symbols of a block, at most `fuel` of them. -/
def symbols (codes : Codes) : (fuel : Nat) → Array UInt8 → BitReader (Array UInt8)
  | 0, _ => throw .invalid
  | fuel + 1, out => do
    let s ← codes.literals.read 0
    if s < 256 then symbols codes fuel (out.push s.toUInt8)
    else if s = 256 then return out
    else
      let length ← tableNumber lengthTable (s - 257)
      let distance ← tableNumber distanceTable (← codes.distances.read 0)
      symbols codes fuel (copy distance length out)

/-! ## The three kinds of blocks -/

/-- A block of bytes as they are. -/
def stored (out : Array UInt8) : BitReader (Array UInt8) := do
  BitReader.align
  let length ← lowNumber 16
  let complement ← lowNumber 16
  check (length + complement == 0xFFFF)
  let bytes ← many (lowNumber 8) length
  return bytes.foldl (fun out b => out.push b.toUInt8) out

/-- The canonical code of a block.  It must leave no string of bits without a meaning, unless it
has no word, or one of a single bit. -/
def code? (lengths : List Nat) : Option PrefixCode :=
  let used := lengths.filter (· ≠ 0)
  if PrefixCode.isComplete longestWord lengths || used = [] || used = [1] then
    PrefixCode.ofLengths? longestWord lengths
  else none

/-- The codes of a block that brings none of its own. -/
def fixedCodes? : Option Codes := do
  let literals ← code? (List.replicate 144 8 ++ List.replicate 112 9 ++ List.replicate 24 7 ++
    List.replicate 8 8)
  let distances ← code? (List.replicate 32 5)
  return { literals, distances }

/-- The order in which the lengths of the code for lengths are given. -/
def lengthOrder : List Nat :=
  [16, 17, 18, 0, 8, 7, 9, 6, 10, 5, 11, 4, 12, 3, 13, 2, 14, 1, 15]

/-- Reads word lengths until there are `n`, after those in `lengths`.  Symbols from 16 on repeat:
the last length, or zero. -/
def readLengths (code : PrefixCode) (n : Nat) : (fuel : Nat) → List Nat → BitReader (List Nat)
  | 0, _ => throw .invalid
  | fuel + 1, lengths => do
    if lengths.length = n then return lengths
    else
      check (lengths.length < n)
      let s ← code.read 0
      if s < 16 then readLengths code n fuel (lengths ++ [s])
      else if s = 16 then
        let last ← require lengths.getLast?
        let times ← lowNumber 2
        readLengths code n fuel (lengths ++ List.replicate (3 + times) last)
      else if s = 17 then
        let times ← lowNumber 3
        readLengths code n fuel (lengths ++ List.replicate (3 + times) 0)
      else
        let times ← lowNumber 7
        readLengths code n fuel (lengths ++ List.replicate (11 + times) 0)

/-- The codes that a block brings. -/
def readCodes : BitReader Codes := do
  let literalCount := 257 + (← lowNumber 5)
  let distanceCount := 1 + (← lowNumber 5)
  let lengthCount := 4 + (← lowNumber 4)
  check (literalCount ≤ 286 && distanceCount ≤ 30)
  let given ← many (lowNumber 3) lengthCount
  let lengthLengths := (List.range 19).map fun s =>
    ((lengthOrder.zip given).lookup s).getD 0
  check (PrefixCode.isComplete longestWord lengthLengths)
  let lengthCode ← require (code? lengthLengths)
  let count := literalCount + distanceCount
  let lengths ← readLengths lengthCode count (count + 1) []
  let literals ← require (code? (lengths.take literalCount))
  let distances ← require (code? (lengths.drop literalCount))
  return { literals, distances }

/-- Reads blocks through the last one, at most `fuel` of them. -/
def blocks : (fuel : Nat) → Array UInt8 → BitReader (Array UInt8)
  | 0, _ => throw .invalid
  | fuel + 1, out => do
    let isLast ← BitReader.bit
    let kind ← lowNumber 2
    let out ←
      match kind with
      | 0 => stored out
      | 1 => symbols (← require fixedCodes?) ((← left) + 1) out
      | 2 => symbols (← readCodes) ((← left) + 1) out
      | _ => throw .invalid
    if isLast then return out else blocks fuel out

/-- The bytes of compressed data. -/
def inflate : BitReader (Array UInt8) := do
  blocks ((← left) + 1) #[]

end Manpage.Archive.Deflate
