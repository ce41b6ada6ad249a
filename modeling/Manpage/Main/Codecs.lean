import Manpage.Archive.Bzip2
import Manpage.Archive.Gzip
import Manpage.Archive.Xz
import Manpage.Charset.Legacy
import Manpage.Source

/-!
# The codecs of the program

What the program unpacks archives with, and how it reads bytes that are not UTF-8: they may start
with a byte order mark, and the rest are taken as windows-1252.

## Main definitions

* `Program.guess`: the label of the character set of bytes.
* `Program.decoders`: the character sets that can be read.
* `Program.codecs`: the codecs.
-/

namespace Manpage.Program

/-- The byte order marks, with the labels of the character sets they announce.  Where one mark
starts another, the longer one comes first. -/
def marks : List (Bytes × String) :=
  [([0xEF, 0xBB, 0xBF], "utf-8"),
    ([0xFF, 0xFE, 0x00, 0x00], "utf-32"),
    ([0x00, 0x00, 0xFE, 0xFF], "utf-32"),
    ([0xFE, 0xFF, 0x00, 0x00], "utf-32"),
    ([0x00, 0x00, 0xFF, 0xFE], "utf-32"),
    ([0xFF, 0xFE], "utf-16le"),
    ([0xFE, 0xFF], "utf-16be")]

/-- The label of the character set of bytes that are not UTF-8. -/
def guess (bytes : Bytes) : String :=
  ((marks.find? fun (mark, _) => mark.isPrefixOf bytes).map (·.2)).getD "windows-1252"

/-- Bytes without the mark that they start with, if they do. -/
def dropMark (mark bytes : Bytes) : Bytes :=
  if mark.isPrefixOf bytes then bytes.drop mark.length else bytes

/-- The character sets that can be read, by their labels. -/
def decoders : List (String × (Bytes → List Char)) :=
  [("utf-8", fun bytes => Utf8.decodeLossy (dropMark [0xEF, 0xBB, 0xBF] bytes)),
    ("utf-16le", fun bytes => Utf16.decode .littleEndian (dropMark [0xFF, 0xFE] bytes)),
    ("utf-16be", fun bytes => Utf16.decode .bigEndian (dropMark [0xFE, 0xFF] bytes)),
    ("windows-1252", Windows1252.decode)]

/-- The codecs. -/
def codecs : Codecs where
  gzip bytes := (Archive.Gzip.unpack bytes).mapError Archive.Error.message
  bzip2 bytes := (Archive.Bzip2.unpack bytes).mapError Archive.Error.message
  xz bytes := (Archive.Xz.unpack bytes).mapError Archive.Error.message
  lzma bytes := (Archive.Lzma.unpack bytes).mapError Archive.Error.message
  guess := guess
  decoder? label := decoders.lookup label

end Manpage.Program
