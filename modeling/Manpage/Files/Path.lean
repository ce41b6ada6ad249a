import Manpage.Text.Basic

/-!
# Paths

Names of files, as text: components between slashes.  A slash at the front makes a path absolute;
empty components and single periods stand for the directory they are in.

## Main definitions

* `Path.components`: the components of a path.
* `Path.IsName`: texts that can be the name of a file.
* `Path.fileName?`: the name of the file that a path leads to.
* `Path.splitExtension`: the parts of a name around its last period.
* `Path.join`: a path inside a directory.
* `Path.sorted`: paths in the order of their components.
* `Path.isTooLong`, `Path.isTooLongName`: what a file system refuses for its length.
-/

namespace Manpage

/-- The name of a file. -/
abbrev Path := List Char

namespace Path

/-- The components of a path, among them those that stand for the directory they are in. -/
def components (path : Path) : List (List Char) :=
  Text.pieces (· == '/') path

/-- Whether a component stands for the directory it is in. -/
def isHere (component : List Char) : Bool :=
  component == [] || component == ['.']

/-- Whether a component stands for the directory above. -/
def isAbove (component : List Char) : Bool :=
  component == ['.', '.']

/-- Texts that can be the name of a file. -/
structure IsName (name : List Char) : Prop where
  slash : '/' ∉ name
  here : isHere name = false
  above : isAbove name = false

instance : DecidablePred IsName := fun name =>
  decidable_of_iff ('/' ∉ name ∧ isHere name = false ∧ isAbove name = false)
    ⟨fun ⟨slash, here, above⟩ => ⟨slash, here, above⟩, fun h => ⟨h.slash, h.here, h.above⟩⟩

/-- Whether a path is absolute. -/
def isAbsolute (path : Path) : Bool :=
  path.head? == some '/'

/-- Whether a path ends in a single period, slashes after it apart. -/
def endsHere (path : Path) : Bool :=
  (components path).reverse.find? (· ≠ []) == some ['.']

/-- The number of bytes in a text. -/
def byteCount (text : List Char) : Nat :=
  text.foldl (fun n c => n + c.utf8Size) 0

/-- Whether a path is longer than file systems take: it may have 4095 bytes. -/
def isTooLong (path : Path) : Bool :=
  4095 < byteCount path

/-- Whether a component is longer than file systems take: a name may have 255 bytes. -/
def isTooLongName (component : List Char) : Bool :=
  255 < byteCount component

/-- The name of the file that a path leads to; a path that ends above leads to none. -/
def fileName? (path : Path) : Option (List Char) :=
  ((components path).reverse.find? (!isHere ·)).filter (!isAbove ·)

/-- The parts of a name before and after its last period.  A period at the front does not
count. -/
def splitExtension (name : List Char) : List Char × Option (List Char) :=
  match Text.cut? (· == '.') name.reverse with
  | some (after, before) =>
    if before = [] then (name, none) else (before.reverse, some after.reverse)
  | none => (name, none)

/-- The extension of the file that a path leads to. -/
def extension? (path : Path) : Option (List Char) :=
  (fileName? path).bind fun name => (splitExtension name).2

/-- The path `path` seen from the directory `directory`. -/
def join (directory path : Path) : Path :=
  if isAbsolute path || directory == [] then path
  else if directory.getLast? == some '/' then directory ++ path
  else directory ++ '/' :: path

/-! ## Order -/

/-- A component of a path, as paths are compared. -/
inductive Part where
  | root
  | here
  | above
  | name (text : List Char)
  deriving DecidableEq, Repr

/-- The place of a component among those of other kinds. -/
def Part.rank : Part → Nat
  | root => 0
  | here => 1
  | above => 2
  | name _ => 3

/-- Whether a component comes before another one. -/
def Part.isBefore : Part → Part → Bool
  | name a, name b => decide (a < b)
  | a, b => a.rank < b.rank

/-- What the components of a path count for when paths are compared.  The directory that a
component is in counts only at the front of a relative path. -/
def parts (path : Path) : List Part :=
  let front : List Part :=
    if isAbsolute path then [.root]
    else if (components path).head? == some ['.'] then [.here]
    else []
  front ++ ((components path).filter (!isHere ·)).map fun component =>
    if isAbove component then .above else .name component

/-- Whether the path `a` does not come after the path `b`. -/
def notAfter (a b : Path) : Bool :=
  !List.lex (parts b) (parts a) Part.isBefore

/-- Paths in the order of their components. -/
def sorted (paths : List Path) : List Path :=
  paths.mergeSort notAfter

end Path

end Manpage
