import Manpage.Archive.Digest
import Manpage.Archive.Filter
import Manpage.Archive.Lzma.Chunks

/-!
# Xz

An xz file: a header, blocks of compressed data with a check after each, an index of the blocks and
a footer.  Nothing may follow.

## Main definitions

* `Xz.BlockHeader`: what a block says about itself.
* `Xz.block`: a block with its padding and its check.
* `Xz.unpack`: the content of a file.
-/

namespace Manpage.Archive.Xz

open ByteReader (byte check expect limited many take varNumber within)

/-! ## The header of a block -/

/-- A step from the content of a block to its data. -/
inductive Step where
  /-- A filter. -/
  | filter (f : Filter)
  /-- Compression, with references that reach back at most `window` bytes. -/
  | compression (window : Nat)

/-- The dictionary size that a byte gives. -/
def dictionarySize (b : UInt8) : Nat :=
  if b = 40 then 1 <<< 32 - 1 else (2 + b.toNat % 2) <<< (b.toNat / 2 + 11)

/-- The machine with the given number. -/
def machine? (id : Nat) : Option Branch.Machine :=
  [(4, .x86), (5, .powerPC), (6, .itanium), (7, .arm), (8, .thumb), (9, .sparc)].lookup id

/-- The step with the given number and properties. -/
def Step.ofProperties? (id : Nat) (properties : Bytes) : Option Step :=
  match id, properties with
  | 0x21, [b] => if b ≤ 40 then some (compression (Lzma.windowOf (dictionarySize b))) else none
  | 3, [b] => some (filter (.differences (b.toNat + 1)))
  | _, [] => (machine? id).map fun machine => filter (.branches machine 0)
  | _, [a, b, c, d] =>
    (machine? id).map fun machine =>
      filter (.branches machine (Word.lowFirst [a, b, c, d]).toUInt32)
  | _, _ => none

/-- A step.  The highest numbers are not for files. -/
def step : ByteReader Step := do
  let id ← varNumber
  check (id < 1 <<< 62)
  let properties ← take (← varNumber)
  match Step.ofProperties? id properties with
  | some s => return s
  | none => throw .xzOptions

/-- The filters before the compression, and how far back references reach in it.  It must come
last. -/
def chain? : List Step → Option (List Filter × Nat)
  | [.compression window] => some ([], window)
  | .filter f :: steps =>
    if f.isUsable then (chain? steps).map fun (filters, window) => (f :: filters, window) else none
  | _ => none

/-- What a block says about itself. -/
structure BlockHeader where
  /-- The size of its compressed data. -/
  packed : Option Nat
  /-- The size of its content. -/
  size : Option Nat
  /-- What was done to its content before it was compressed. -/
  filters : List Filter
  /-- How far back references reach. -/
  window : Nat

/-- A number that is only there if its flag is set. -/
def optionalNumber (flag : Bool) : ByteReader (Option Nat) := do
  if flag then return some (← varNumber) else return none

/-- The largest size of a block. -/
def largestBlock : Nat := 1 <<< 63 - 4

/-- The header of a block, from the flags to the padding.  With the `extra` bytes around it, the
compressed data may not be larger than a file can be. -/
def blockHeader (extra : Nat) : ByteReader BlockHeader := do
  let flags := (← byte).toNat
  check (flags / 4 % 16 == 0) .xzOptions
  let packed ← optionalNumber (flags.testBit 6)
  check (packed.all fun n => n ≠ 0 && n + extra ≤ largestBlock)
  let size ← optionalNumber (flags.testBit 7)
  let steps ← many step (flags % 4 + 1)
  let padding ← get
  check (padding.all (· == 0)) .xzOptions
  match chain? steps with
  | some (filters, window) => return { packed, size, filters, window }
  | none => throw .xzOptions

/-! ## Blocks -/

/-- The kind of check that follows each block. -/
abbrev CheckKind := Nat

/-- How many bytes a check has. -/
def checkSize (kind : CheckKind) : Nat :=
  [0, 4, 4, 4, 8, 8, 8, 16, 16, 16, 32, 32, 32, 64, 64, 64].getD kind 0

/-- Whether `given` is the check of a block's content.  Kinds that are not known always agree. -/
def checkAgrees (kind : CheckKind) (content given : Bytes) : Bool :=
  match kind with
  | 1 => Checksum.crc32 content == Word.lowFirst given
  | 4 => Checksum.crc64 content == Word.lowFirst given
  | 10 => Digest.sha256 content == given
  | _ => true

/-- How many zeros are missing to a multiple of four bytes. -/
def padding (n : Nat) : Bytes :=
  List.replicate ((4 - n % 4) % 4) 0

/-- The size of a block without its padding, and the size of its content. -/
abbrev Record := Nat × Nat

/-- A block after the byte that gives the size of its header: its content and its record. -/
def block (kind : CheckKind) (sizeByte : UInt8) : ByteReader (Bytes × Record) := do
  let headerSize := 4 * (sizeByte.toNat + 1)
  let fields ← take (headerSize - 5)
  let sum ← take 4
  check (Checksum.crc32 (sizeByte :: fields) == Word.lowFirst sum)
  let h ← within fields (blockHeader (headerSize + checkSize kind))
  let before := (← get).length
  let data ← limited h.packed (Lzma.Chunks.decode h.window h.size)
  let packed := before - (← get).length
  let content := Filter.undoAll h.filters data
  check (h.packed.all (· == packed) && h.size.all (· == content.length))
  expect (padding packed)
  let given ← take (checkSize kind)
  check (checkAgrees kind content given)
  return (content, (headerSize + packed + checkSize kind, content.length))

/-! ## The index and the footer -/

/-- How many bytes a number takes in the index, at seven bits each. -/
def numberSize (n : Nat) : Nat :=
  if n < 128 then 1 else numberSize (n / 128) + 1

/-- What records add up to. -/
structure Totals where
  /-- The sizes of the blocks, with their padding. -/
  blocks : Nat := 0
  /-- The sizes of their content. -/
  content : Nat := 0
  /-- How many bytes the records take in the index. -/
  listed : Nat := 0

/-- The totals with those of one more record. -/
def Totals.add (t : Totals) : Record → Totals
  | (unpadded, size) =>
    { blocks := t.blocks + (unpadded + 3) / 4 * 4
      content := t.content + size
      listed := t.listed + numberSize unpadded + numberSize size }

/-- Whether no total is above another. -/
def Totals.isWithin (t limit : Totals) : Bool :=
  t.blocks ≤ limit.blocks && t.content ≤ limit.content && t.listed ≤ limit.listed

/-- The `n` records of an index.  At no point may they add up to more than `limit`. -/
def readRecords (limit : Totals) (before : Totals) : (n : Nat) → ByteReader (List Record)
  | 0 => pure []
  | n + 1 => do
    let unpadded ← varNumber
    check (5 ≤ unpadded && unpadded ≤ largestBlock)
    let record := (unpadded, ← varNumber)
    let totals := before.add record
    check (totals.isWithin limit)
    return record :: (← readRecords limit totals n)

/-- The index after its first byte, with the size that the footer must give for it.  Its records
must be those of the blocks, which shows when the sum of the index begins. -/
def index (records : List Record) : ByteReader Nat := do
  let bytes ← get
  let count ← varNumber
  check (count == records.length)
  let listed ← readRecords (records.foldl Totals.add {}) {} count
  let size := bytes.length - (← get).length
  expect (padding (1 + size))
  let size := bytes.length - (← get).length
  check ((← get) ≠ []) .xzEnds
  check (listed == records)
  expect (Word.lowBytes (Checksum.crc32 (0 :: bytes.take size)).toUInt32)
  return 1 + size + 4

/-- Whether the flags of a file are known. -/
def areKnown (flags : Bytes) : Bool :=
  flags.headD 0 == 0 && flags.getD 1 0 < 16

/-- The footer of a file with the given flags. -/
def footer (flags : Bytes) (indexSize : Nat) : ByteReader Unit := do
  let sum ← take 4
  let fields ← take 6
  let magic ← take 2
  check (magic == [0x59, 0x5A])
  check (Checksum.crc32 fields == Word.lowFirst sum)
  check (areKnown (fields.drop 4)) .xzOptions
  check (fields.drop 4 == flags)
  check (4 * (Word.lowFirst (fields.take 4) + 1) == indexSize)

/-- Blocks, the index and the footer, with at most `fuel` blocks; `records` are those of the blocks
before. -/
def blocks (flags : Bytes) (kind : CheckKind) : (fuel : Nat) → List Record → ByteReader Bytes
  | 0, _ => throw .xzData
  | fuel + 1, records => do
    let first ← byte
    if first = 0 then
      footer flags (← index records)
      return []
    else
      let (content, record) ← block kind first
      return content ++ (← blocks flags kind fuel (records ++ [record]))

/-! ## Files -/

/-- The bytes that start a file. -/
def magic : Bytes := [0xFD, 0x37, 0x7A, 0x58, 0x5A, 0x00]

/-- The flags that the header of a file gives. -/
def header : ByteReader Bytes := do
  let bytes ← take 12
  check (bytes.take 6 == magic) .xzFormat
  let flags := (bytes.drop 6).take 2
  check (Checksum.crc32 flags == Word.lowFirst (bytes.drop 8))
  check (areKnown flags) .xzOptions
  return flags

/-- The content of a file. -/
def file : ByteReader Bytes := do
  let flags ← header
  let content ← blocks flags (flags.getD 1 0).toNat ((← get).length + 1) []
  check ((← get) == []) .xzTrailing
  return content

/-- The content of a file. -/
def unpack (bytes : Bytes) : Except Error Bytes :=
  (file bytes).map (·.1)

end Manpage.Archive.Xz
