import Manpage.Charset.Utf8

/-!
# Archive formats

The formats in which a page can be compressed, and how they are told.

## Main definitions

* `Archive.Format`: the formats, plain text among them.
* `Archive.Format.ofExtension?`, `Archive.Format.sniff`: the format by the name of a file, or by
  its first bytes.
-/

namespace Manpage.Archive

/-- The formats in which a page can be compressed. -/
inductive Format where
  | plain
  | gzip
  | bzip2
  | xz
  | lzma
  deriving DecidableEq, Repr

namespace Format

/-- The format of files with a given extension. -/
def ofExtension? (extension : List Char) : Option Format :=
  [("gz", gzip), ("bz2", bzip2), ("xz", xz), ("lzma", lzma)].lookup (String.ofList extension)

/-- The bytes that start archives, with their formats. -/
def signatures : List (Bytes × Format) :=
  [([0x1F, 0x8B], gzip), ([0x42, 0x5A, 0x68], bzip2),
    ([0xFD, 0x37, 0x7A, 0x58, 0x5A, 0x00], xz)]

/-- The format that the first bytes of a file tell. -/
def sniff (bytes : Bytes) : Format :=
  ((signatures.find? fun (signature, _) => signature.isPrefixOf bytes).map (·.2)).getD plain

end Format

end Manpage.Archive
