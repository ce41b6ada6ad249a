import Manpage.Archive.Digest
import Manpage.Archive.Deflate

/-!
# Gzip

A gzip file: a header, compressed data, and a trailer that checks it.  Only the first member of a
file counts.

## Main definitions

* `Gzip.unpack`: the content of a file.
-/

namespace Manpage.Archive.Gzip

/-- Bytes that a header can bring, each with the rest of the file. -/
abbrev Part := Except Error (Bytes × Bytes)

/-- The first `n` bytes. -/
def take (n : Nat) (bytes : Bytes) : Part :=
  if n ≤ bytes.length then .ok (bytes.take n, bytes.drop n) else .error .gzipEnds

/-- The most bytes of a text in a header. -/
def longestText : Nat := 65535

/-- The bytes through the first zero. -/
def takeThroughZero (bytes : Bytes) : Part :=
  let n := (bytes.takeWhile (· ≠ 0)).length
  if n ≤ longestText then take (n + 1) bytes else .error .gzipTextTooLong

/-- A field with its length in front. -/
def takeField (bytes : Bytes) : Part := do
  let (length, rest) ← take 2 bytes
  let (content, rest) ← take (Word.lowFirst length) rest
  return (length ++ content, rest)

/-- A part that is only there if its flag is set. -/
def optional (flag : Bool) (part : Bytes → Part) (bytes : Bytes) : Part :=
  if flag then part bytes else .ok ([], bytes)

/-- What follows the header. -/
def afterHeader (bytes : Bytes) : Except Error Bytes := do
  let (fixed, rest) ← take 10 bytes
  if fixed.take 3 ≠ [0x1F, 0x8B, 8] then throw .gzipHeader
  let flags := (fixed.getD 3 0).toNat
  if flags ≥ 0x20 then throw .gzipHeader
  let (extra, rest) ← optional (flags.testBit 2) takeField rest
  let (name, rest) ← optional (flags.testBit 3) takeThroughZero rest
  let (comment, rest) ← optional (flags.testBit 4) takeThroughZero rest
  let (check, rest) ← optional (flags.testBit 1) (take 2) rest
  if flags.testBit 1 ∧
      Word.lowFirst check ≠ Checksum.crc32 (fixed ++ extra ++ name ++ comment) % 0x10000 then
    throw .gzipChecksum
  return rest

/-- The checksum and the length of the content, as the trailer gives them. -/
def trailer : BitReader (Nat × Nat) := do
  BitReader.align
  let check ← BitReader.lowNumber 32
  return (check, ← BitReader.lowNumber 32)

/-- The content of a file. -/
def unpack (bytes : Bytes) : Except Error Bytes := do
  let rest ← afterHeader bytes
  match Deflate.inflate (Bits.lowFirst rest) with
  | .error _ => throw .gzipData
  | .ok (out, bits) =>
    match trailer bits with
    | .error _ => throw .gzipEnds
    | .ok ((check, length), _) =>
      let content := out.toList
      if check = Checksum.crc32 content ∧ length = content.length % 1 <<< 32 then return content
      else throw .gzipChecksum

end Manpage.Archive.Gzip
