import Manpage.Charset.Utf8

/-!
# Archives

The causes for which a compressed page cannot be unpacked, and the numbers that bytes spell.

## Main definitions

* `Error`: the causes for which an archive cannot be unpacked.
* `Word.lowFirst`, `Word.highFirst`: the number that bytes spell.
* `Word.lowBytes`, `Word.highBytes`: the bytes of a word.
-/

namespace Manpage.Archive

/-- The cause for which an archive cannot be unpacked. -/
inductive Error where
  /-- A gzip file ends in its header or its trailer. -/
  | gzipEnds
  /-- A gzip file has no proper header. -/
  | gzipHeader
  /-- A text in the header of a gzip file is too long. -/
  | gzipTextTooLong
  /-- The compressed data of a gzip file makes no sense. -/
  | gzipData
  /-- A checksum of a gzip file is wrong. -/
  | gzipChecksum
  /-- A bzip2 file ends too early. -/
  | bzip2Ends
  /-- A bzip2 file has no proper header. -/
  | bzip2Header
  /-- The compressed data of a bzip2 file makes no sense. -/
  | bzip2Data
  /-- An xz or lzma file ends too early. -/
  | xzEnds
  /-- An xz or lzma file has no proper header. -/
  | xzFormat
  /-- An xz file uses a feature that is not supported. -/
  | xzOptions
  /-- The compressed data of an xz or lzma file makes no sense. -/
  | xzData
  /-- Something follows the end of an xz or lzma file. -/
  | xzTrailing
  deriving DecidableEq, Repr

/-- The wording of a cause. -/
def Error.message : Error → String
  | gzipEnds => "unexpected end of file"
  | gzipHeader => "invalid gzip header"
  | gzipTextTooLong => "gzip header field too long"
  | gzipData => "corrupt deflate stream"
  | gzipChecksum => "corrupt gzip stream does not have a matching checksum"
  | bzip2Ends => "decompression not finished but EOF reached"
  | bzip2Header => "bzip2: bz2 header missing"
  | bzip2Data => "bzip2: invalid data"
  | xzEnds => "premature eof"
  | xzFormat => "stream/file format not recognized"
  | xzOptions => "invalid options"
  | xzData => "lzma data error"
  | xzTrailing => "corrupt xz stream"

namespace Word

/-- The number that bytes spell, the lowest first. -/
def lowFirst (bytes : Bytes) : Nat :=
  bytes.foldr (fun b n => b.toNat + 256 * n) 0

/-- The number that bytes spell, the highest first. -/
def highFirst (bytes : Bytes) : Nat :=
  bytes.foldl (fun n b => 256 * n + b.toNat) 0

/-- The four bytes of a word, the lowest first. -/
def lowBytes (w : UInt32) : Bytes :=
  [w.toUInt8, (w >>> 8).toUInt8, (w >>> 16).toUInt8, (w >>> 24).toUInt8]

/-- The four bytes of a word, the highest first. -/
def highBytes (w : UInt32) : Bytes :=
  (lowBytes w).reverse

/-- What follows the first bytes of a string is shorter than the string. -/
theorem length_lt_of_drop {bytes rest : Bytes} {n : Nat} {b : UInt8}
    (h : bytes.drop n = b :: rest) : rest.length < bytes.length := by
  have := congrArg List.length h
  simp only [List.length_drop, List.length_cons] at this
  omega

end Word

end Manpage.Archive
