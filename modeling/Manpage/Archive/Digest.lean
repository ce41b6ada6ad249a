import Manpage.Archive.Basic

/-!
# Checksums and digests

Cyclic redundancy checks: the remainder of a byte string, read as a polynomial over two elements.
And the digest SHA-256 of a byte string: eight words into which the blocks of the padded string are
mixed, one after the other.

## Main definitions

* `Checksum.crc32`, `Checksum.crc64`: the checks of gzip and xz, lowest bit first.
* `Checksum.crc32High`: the check of bzip2, highest bit first.
* `Digest.padding`: what is added to a string to make it whole blocks.
* `Digest.schedule`: the words of a block's rounds.
* `Digest.compress`: the digest so far with one more block.
* `Digest.sha256`: the digest of a byte string.
-/

namespace Manpage.Archive

namespace Checksum

/-- One bit of a remainder that is shifted towards its low end. -/
def stepLow (polynomial remainder : UInt64) : UInt64 :=
  if remainder &&& 1 = 1 then (remainder >>> 1) ^^^ polynomial else remainder >>> 1

/-- One byte of a remainder that is shifted towards its low end. -/
def byteLow (polynomial remainder : UInt64) (b : UInt8) : UInt64 :=
  Nat.repeat (stepLow polynomial) 8 (remainder ^^^ b.toUInt64)

/-- The check of a byte string, lowest bit first, starting and ending with the complement. -/
def low (polynomial ones : UInt64) (bytes : Bytes) : Nat :=
  ((bytes.foldl (byteLow polynomial) ones) ^^^ ones).toNat

/-- The check of 32 bits, lowest bit first. -/
def crc32 (bytes : Bytes) : Nat :=
  low 0xEDB88320 0xFFFFFFFF bytes

/-- The check of 64 bits, lowest bit first. -/
def crc64 (bytes : Bytes) : Nat :=
  low 0xC96C5795D7870F42 0xFFFFFFFFFFFFFFFF bytes

/-- One bit of a remainder that is shifted towards its high end. -/
def stepHigh (remainder : UInt32) : UInt32 :=
  if remainder &&& 0x80000000 ≠ 0 then (remainder <<< 1) ^^^ 0x04C11DB7 else remainder <<< 1

/-- One byte of a remainder that is shifted towards its high end. -/
def byteHigh (remainder : UInt32) (b : UInt8) : UInt32 :=
  Nat.repeat stepHigh 8 (remainder ^^^ (b.toUInt32 <<< 24))

/-- The check of 32 bits, highest bit first. -/
def crc32High (bytes : Bytes) : Nat :=
  ((bytes.foldl byteHigh 0xFFFFFFFF) ^^^ 0xFFFFFFFF).toNat

end Checksum

namespace Digest

/-- The eight words of a digest. -/
structure Words where
  a : UInt32 := 0x6A09E667
  b : UInt32 := 0xBB67AE85
  c : UInt32 := 0x3C6EF372
  d : UInt32 := 0xA54FF53A
  e : UInt32 := 0x510E527F
  f : UInt32 := 0x9B05688C
  g : UInt32 := 0x1F83D9AB
  h : UInt32 := 0x5BE0CD19
  deriving DecidableEq, Repr

/-- The constants of the 64 rounds. -/
def roundConstants : List UInt32 := [
  0x428A2F98, 0x71374491, 0xB5C0FBCF, 0xE9B5DBA5, 0x3956C25B, 0x59F111F1, 0x923F82A4, 0xAB1C5ED5,
  0xD807AA98, 0x12835B01, 0x243185BE, 0x550C7DC3, 0x72BE5D74, 0x80DEB1FE, 0x9BDC06A7, 0xC19BF174,
  0xE49B69C1, 0xEFBE4786, 0x0FC19DC6, 0x240CA1CC, 0x2DE92C6F, 0x4A7484AA, 0x5CB0A9DC, 0x76F988DA,
  0x983E5152, 0xA831C66D, 0xB00327C8, 0xBF597FC7, 0xC6E00BF3, 0xD5A79147, 0x06CA6351, 0x14292967,
  0x27B70A85, 0x2E1B2138, 0x4D2C6DFC, 0x53380D13, 0x650A7354, 0x766A0ABB, 0x81C2C92E, 0x92722C85,
  0xA2BFE8A1, 0xA81A664B, 0xC24B8B70, 0xC76C51A3, 0xD192E819, 0xD6990624, 0xF40E3585, 0x106AA070,
  0x19A4C116, 0x1E376C08, 0x2748774C, 0x34B0BCB5, 0x391C0CB3, 0x4ED8AA4A, 0x5B9CCA4F, 0x682E6FF3,
  0x748F82EE, 0x78A5636F, 0x84C87814, 0x8CC70208, 0x90BEFFFA, 0xA4506CEB, 0xBEF9A3F7, 0xC67178F2]

/-- A word with its bits moved towards the low end in a circle. -/
def rotate (w : UInt32) (n : UInt32) : UInt32 :=
  w >>> n ||| w <<< (32 - n)

/-- Adds words to those of a block, each made of four before it, until there are `more` more. -/
def extend : (more : Nat) → Array UInt32 → Array UInt32
  | 0, words => words
  | more + 1, words =>
    let back (n : Nat) : UInt32 := words.getD (words.size - n) 0
    let x := back 15
    let y := back 2
    let w := back 16 + (rotate x 7 ^^^ rotate x 18 ^^^ x >>> 3) + back 7 +
      (rotate y 17 ^^^ rotate y 19 ^^^ y >>> 10)
    extend more (words.push w)

/-- The words that bytes spell, the highest byte first. -/
def wordsOf : Bytes → List UInt32
  | a :: b :: c :: d :: rest => (Word.highFirst [a, b, c, d]).toUInt32 :: wordsOf rest
  | _ => []

/-- The words of the rounds of a block: its own sixteen and 48 more. -/
def schedule (block : Bytes) : List UInt32 :=
  (extend 48 (wordsOf block).toArray).toList

/-- A round with the sum of its constant and its word. -/
def round (s : Words) (w : UInt32) : Words :=
  let mixed := s.h + (rotate s.e 6 ^^^ rotate s.e 11 ^^^ rotate s.e 25) +
    ((s.e &&& s.f) ^^^ (~~~s.e &&& s.g)) + w
  let most := (s.a &&& s.b) ^^^ (s.a &&& s.c) ^^^ (s.b &&& s.c)
  { a := mixed + (rotate s.a 2 ^^^ rotate s.a 13 ^^^ rotate s.a 22) + most
    b := s.a
    c := s.b
    d := s.c
    e := s.d + mixed
    f := s.e
    g := s.f
    h := s.g }

/-- The sums of words. -/
def Words.add (s t : Words) : Words :=
  { a := s.a + t.a
    b := s.b + t.b
    c := s.c + t.c
    d := s.d + t.d
    e := s.e + t.e
    f := s.f + t.f
    g := s.g + t.g
    h := s.h + t.h }

/-- The digest so far with one more block. -/
def compress (s : Words) (block : Bytes) : Words :=
  s.add ((List.zipWith (· + ·) roundConstants (schedule block)).foldl round s)

/-- What is added to a string of `n` bytes to make it whole blocks: a bit, zeros, and the number of
its bits. -/
def padding (n : Nat) : Bytes :=
  (0x80 : UInt8) :: List.replicate ((119 - n % 64) % 64) 0 ++
    Word.highBytes ((8 * n) >>> 32).toUInt32 ++ Word.highBytes (8 * n).toUInt32

/-- The digest so far with all blocks of a string. -/
def compressAll (s : Words) (bytes : Bytes) : Words :=
  match h : bytes.drop 63 with
  | [] => s
  | _ :: rest =>
    have : rest.length < bytes.length := Word.length_lt_of_drop h
    compressAll (compress s (bytes.take 64)) rest
  termination_by bytes.length

/-- The digest of a byte string. -/
def sha256 (bytes : Bytes) : Bytes :=
  let s := compressAll {} (bytes ++ padding bytes.length)
  [s.a, s.b, s.c, s.d, s.e, s.f, s.g, s.h].flatMap Word.highBytes

end Digest

end Manpage.Archive
