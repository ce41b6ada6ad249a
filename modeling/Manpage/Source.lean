import Manpage.Archive.Format
import Manpage.Files.Tree

/-!
# Reading pages

From the bytes of a page to its text: unpacking, then decoding.  How an archive is unpacked and how
bytes are read that are not UTF-8 is up to the codecs that reading is given.

## Main definitions

* `Codecs`: what unpacks archives and reads other character sets.
* `PageError`: the reasons why pages cannot be converted.
* `Codecs.decode?`: the text of bytes, unless their character set cannot be read.
* `Source.decode`: the text of a page in a given format.
* `Source.readBytes`, `Source.readPage`: the text of a page from a stream or from a file.
* `Source.outputName?`: the name of the file that a page's HTML goes to.
-/

namespace Manpage

/-! ## Codecs -/

/-- What unpacks archives and reads character sets other than UTF-8. -/
structure Codecs where
  /-- The content of a gzip archive, or else what is wrong with it. -/
  gzip : Bytes → Except String Bytes
  /-- The content of a bzip2 archive, or else what is wrong with it. -/
  bzip2 : Bytes → Except String Bytes
  /-- The content of an xz archive, or else what is wrong with it. -/
  xz : Bytes → Except String Bytes
  /-- The content of an lzma archive, or else what is wrong with it. -/
  lzma : Bytes → Except String Bytes
  /-- The label of the character set that bytes are guessed to be in. -/
  guess : Bytes → String
  /-- What reads the character set with a label, if there is one. -/
  decoder? : String → Option (Bytes → List Char)

namespace Codecs

/-- Codecs that know no archives and no character sets. -/
def bare : Codecs where
  gzip _ := .error "unsupported"
  bzip2 _ := .error "unsupported"
  xz _ := .error "unsupported"
  lzma _ := .error "unsupported"
  guess _ := "unknown"
  decoder? _ := none

/-- The content of an archive, or else what is wrong with it. -/
def unpack (codecs : Codecs) : Archive.Format → Bytes → Except String Bytes
  | .plain, bytes => .ok bytes
  | .gzip, bytes => codecs.gzip bytes
  | .bzip2, bytes => codecs.bzip2 bytes
  | .xz, bytes => codecs.xz bytes
  | .lzma, bytes => codecs.lzma bytes

/-- The text of bytes, unless their character set cannot be read.  Only that of bytes that are not
UTF-8 is guessed. -/
def decode? (codecs : Codecs) (bytes : Bytes) : Option (List Char) :=
  match Utf8.decode? bytes with
  | some cs => some (Text.dropMark cs)
  | none => (codecs.decoder? (codecs.guess bytes)).map fun decoder => decoder bytes

end Codecs

/-! ## Errors -/

/-- The cause for which a file cannot be used. -/
inductive FileCause where
  /-- The file system refuses. -/
  | files (e : FileError)
  /-- A path leads to no file. -/
  | noFileName
  /-- A cause in the words of whoever met it. -/
  | reported (message : String)
  deriving DecidableEq, Repr

/-- The wording of a cause. -/
def FileCause.message : FileCause → String
  | files e => e.message
  | noFileName => "not a file name"
  | reported message => message

/-- The reason why pages cannot be converted. -/
inductive PageError where
  /-- A file cannot be used. -/
  | file (path : Path) (cause : FileCause)
  /-- The character set of a page cannot be read. -/
  | charset (path : Path)
  /-- There are no pages in the manual path. -/
  | noPages
  /-- Some of the pages could not be converted. -/
  | failed (count total : Nat)
  deriving DecidableEq, Repr

namespace PageError

/-- The cause behind a reason. -/
def cause? : PageError → Option FileCause
  | file _ cause => some cause
  | _ => none

/-- The wording of a reason. -/
def message : PageError → String
  | file path cause => String.ofList path ++ ": " ++ cause.message
  | charset path => String.ofList path ++ ": could not detect the character set"
  | noPages => "no man pages found in the man path"
  | failed count total => toString count ++ " of " ++ toString total ++
      " man pages could not be converted"

end PageError

/-! ## Pages -/

namespace Source

variable (codecs : Codecs)

/-- The text of a page in a given format.  `name` is what the page is called in errors. -/
def decode (bytes : Bytes) (format : Archive.Format) (name : Path) :
    Except PageError (List Char) :=
  match codecs.unpack format bytes with
  | .error e => .error (.file name (.reported e))
  | .ok content =>
    match codecs.decode? content with
    | some text => .ok text
    | none => .error (.charset name)

/-- The text of a page from a stream.  Its first bytes tell the format. -/
def readBytes (bytes : Bytes) (name : Path) : Except PageError (List Char) :=
  decode codecs bytes (.sniff bytes) name

/-- The format that the name of a file tells. -/
def formatOfPath? (path : Path) : Option Archive.Format :=
  path.extension?.bind Archive.Format.ofExtension?

/-- The text of a page from the content of a file.  The format is told by the file's name, or else
by its first bytes. -/
def readContent (bytes : Bytes) (path : Path) : Except PageError (List Char) :=
  decode codecs bytes ((formatOfPath? path).getD (.sniff bytes)) path

/-- The text of a page from a file. -/
def readPage (tree : FileTree) (path : Path) : Except PageError (List Char) :=
  match tree.contentOf path with
  | .error e => .error (.file path (.files e))
  | .ok bytes => readContent codecs bytes path

/-- The name of the file that a page's HTML goes to: the page's file name, without the extension of
an archive. -/
def outputName? (path : Path) : Option (List Char) :=
  path.fileName?.map fun name =>
    (if (formatOfPath? path).isSome then (Path.splitExtension name).1 else name) ++
      ".html".toList

end Source

end Manpage
