import Manpage.Charset.Utf8
import Manpage.Files.Path

/-!
# File trees

Files and directories as a tree, and the operations of a file system on it.  Relative paths start
from a working directory.

## Main definitions

* `Entry`: a file or a directory.
* `Entry.get?`, `Entry.put`: the entry at a location.
* `FileTree`: a tree with a working directory.
* `FileTree.locate`: the location that a path leads to.
* `DirectoryListing`, `DirectoryReader`: what a directory lists, and a file system that tells it.
* `FileTree.contentOf`, `FileTree.readDirectory`, `FileTree.createDirectories`,
  `FileTree.addFile`: the operations.
-/

namespace Manpage

/-- The reason why an operation on files fails. -/
inductive FileError where
  | notFound
  | alreadyExists
  | notDirectory
  | isDirectory
  | nameTooLong
  /-- A name holds the character that ends names. -/
  | nulInName
  deriving DecidableEq, Repr

/-- The wording of a reason. -/
def FileError.message : FileError → String
  | notFound => "No such file or directory (os error 2)"
  | alreadyExists => "File exists (os error 17)"
  | notDirectory => "Not a directory (os error 20)"
  | isDirectory => "Is a directory (os error 21)"
  | nameTooLong => "File name too long (os error 36)"
  | nulInName => "file name contained an unexpected NUL byte"

/-- What a directory tells of one of its entries. -/
structure ListedEntry (ε : Type) where
  name : List Char
  isName : Path.IsName name
  /-- Whether the entry is a directory itself, or why that cannot be told. -/
  isDirectory : Except ε Bool

/-- What a directory lists: entries of different names, in any order.  Some of them may not be
readable. -/
structure DirectoryListing (ε : Type) where
  items : List (Except ε (ListedEntry ε))
  nodup : ((items.filterMap Except.toOption).map ListedEntry.name).Nodup

/-- A file system, as far as it lists the directories that paths lead to. -/
abbrev DirectoryReader (ε : Type) := Path → Except ε (DirectoryListing ε)

/-- A file with its content, or a directory with its entries. -/
inductive Entry where
  | file (content : Bytes)
  | directory (entries : List (List Char × Entry))

/-- Where an entry is: the names on the way from the root. -/
abbrev Location := List (List Char)

namespace Entry

/-- The entries of a directory. -/
def entries : Entry → List (List Char × Entry)
  | file _ => []
  | directory entries => entries

/-- Whether an entry is a directory. -/
def isDirectory : Entry → Bool
  | file _ => false
  | directory _ => true

/-- Whether an entry is a file with the given content. -/
def hasContent (content : Bytes) : Entry → Bool
  | file c => c == content
  | directory _ => false

/-- What is listed of the entries of a directory: under each name that a path can hold, the entry
that is found there. -/
def listed : List (List Char × Entry) → List (ListedEntry FileError)
  | [] => []
  | (name, e) :: entries =>
    let others := (listed entries).filter (·.name ≠ name)
    if h : Path.IsName name then ⟨name, h, .ok e.isDirectory⟩ :: others else others

theorem nodup_listed (entries : List (List Char × Entry)) :
    ((listed entries).map ListedEntry.name).Nodup := by
  induction entries with
  | nil => exact List.nodup_nil
  | cons entry entries ih =>
    have hothers : (((listed entries).filter (·.name ≠ entry.1)).map ListedEntry.name).Nodup :=
      ih.sublist (List.filter_sublist.map _)
    rw [listed]
    split
    · refine List.nodup_cons.mpr ⟨fun hmem => ?_, hothers⟩
      obtain ⟨other, hother, hname⟩ := List.mem_map.mp hmem
      exact of_decide_eq_true (List.mem_filter.mp hother).2 hname
    · exact hothers

/-- What a directory with the given entries lists. -/
def listing (entries : List (List Char × Entry)) : DirectoryListing FileError where
  items := (listed entries).map .ok
  nodup := by
    have hreadable : ((listed entries).map (Except.ok (ε := FileError))).filterMap
        Except.toOption = listed entries := by
      rw [List.filterMap_map]
      exact List.filterMap_some
    rw [hreadable]
    exact nodup_listed entries

/-- The entry at a location. -/
def get? : Location → Entry → Option Entry
  | [], e => some e
  | name :: rest, e => (e.entries.lookup name).bind (get? rest)

/-- Entries with `e` under the given name. -/
def replaceEntry (name : List Char) (e : Entry) (entries : List (List Char × Entry)) :
    List (List Char × Entry) :=
  if entries.any (·.1 == name) then
    entries.map fun old => if old.1 == name then (name, e) else old
  else entries ++ [(name, e)]

/-- The tree with `new` at a location; directories on the way are created. -/
def put (new : Entry) : Location → Entry → Entry
  | [], _ => new
  | name :: rest, e =>
    directory (replaceEntry name
      (put new rest ((e.entries.lookup name).getD (directory []))) e.entries)

mutual

/-- The files in an entry at a location. -/
def filesAt (here : Location) : Entry → List (Location × Bytes)
  | file content => [(here, content)]
  | directory entries => filesAmong here entries

/-- The files in the entries of a directory at a location. -/
def filesAmong (here : Location) : List (List Char × Entry) → List (Location × Bytes)
  | [] => []
  | (name, e) :: rest => filesAt (here ++ [name]) e ++ filesAmong here rest

end

/-- The files in a tree, each with its location. -/
def files (e : Entry) : List (Location × Bytes) :=
  filesAt [] e

end Entry

/-- A tree with a working directory. -/
structure FileTree where
  root : Entry
  /-- Where relative paths start. -/
  workingDirectory : Location := []

namespace FileTree

/-! ## Paths -/

/-- Where a path starts. -/
def start (tree : FileTree) (path : Path) : Location :=
  if path.isAbsolute then [] else tree.workingDirectory

/-- The location that a component leads to from a directory.  Nothing is above the root. -/
def enter (tree : FileTree) (here : Location) (component : List Char) :
    Except FileError Location :=
  match tree.root.get? here with
  | some (.directory entries) =>
    if Path.isHere component then .ok here
    else if Path.isAbove component then .ok here.dropLast
    else if Path.isTooLongName component then .error .nameTooLong
    else if (entries.lookup component).isSome then .ok (here ++ [component])
    else .error .notFound
  | some (.file _) => .error .notDirectory
  | none => .error .notFound

/-- Refuses a path that no file can have. -/
def checkPath (path : Path) : Except FileError Unit :=
  if path.contains '\x00' then .error .nulInName
  else if path.isTooLong then .error .nameTooLong
  else .ok ()

/-- The location that a path leads to.  The empty path leads nowhere. -/
def locate (tree : FileTree) (path : Path) : Except FileError Location := do
  checkPath path
  if path = [] then throw .notFound
  path.components.foldlM tree.enter (tree.start path)

/-- The entry that a path leads to. -/
def find (tree : FileTree) (path : Path) : Except FileError Entry := do
  match tree.root.get? (← tree.locate path) with
  | some e => return e
  | none => throw .notFound

/-- The path of a location: from the working directory, if it is inside. -/
def pathOf (tree : FileTree) (there : Location) : Path :=
  if tree.workingDirectory.isPrefixOf there then
    Text.joinWith ['/'] (there.drop tree.workingDirectory.length)
  else '/' :: Text.joinWith ['/'] there

/-! ## Operations -/

/-- The content of a file. -/
def contentOf (tree : FileTree) (path : Path) : Except FileError Bytes := do
  match ← tree.find path with
  | .file content => return content
  | .directory _ => throw .isDirectory

/-- What a directory lists. -/
def readDirectory (tree : FileTree) : DirectoryReader FileError := fun path => do
  match ← tree.find path with
  | .file _ => throw .notDirectory
  | .directory entries => return Entry.listing entries

/-- The tree with `e` at a location. -/
def put (e : Entry) (there : Location) (tree : FileTree) : FileTree :=
  { tree with root := Entry.put e there tree.root }

/-- The tree and the location after entering a directory from a directory. -/
def enterDirectory (state : FileTree × Location) (component : List Char) :
    Except FileError (FileTree × Location) := do
  let (tree, here) := state
  let there ← tree.enter here component
  if (tree.root.get? there).any Entry.isDirectory then return (tree, there)
  else throw .alreadyExists

/-- The tree and the location after entering a directory from a directory, where it is created if
it is missing. -/
def enterOrCreate (state : FileTree × Location) (component : List Char) :
    Except FileError (FileTree × Location) :=
  match enterDirectory state component with
  | .error .notFound =>
    let (tree, here) := state
    let there := here ++ [component]
    .ok (tree.put (.directory []) there, there)
  | result => result

/-- The tree with the directory that a path leads to and all directories on the way, and its
location.  The directory itself is not created if the path goes on from it with a period: such a
path can only be that of a directory which is there. -/
def createDirectories (tree : FileTree) (path : Path) :
    Except FileError (FileTree × Location) := do
  checkPath path
  let names := path.components.filter (!Path.isHere ·)
  if path.endsHere then
    let state ← names.dropLast.foldlM enterOrCreate (tree, tree.start path)
    (names.drop (names.length - 1)).foldlM enterDirectory state
  else names.foldlM enterOrCreate (tree, tree.start path)

/-- The tree with a file in the directory at a location. -/
def addFile (tree : FileTree) (here : Location) (name : List Char) (content : Bytes) :
    Except FileError FileTree :=
  let there := here ++ [name]
  if Path.isTooLongName name then .error .nameTooLong
  else if (tree.root.get? there).any Entry.isDirectory then .error .isDirectory
  else .ok (tree.put (.file content) there)

/-- Where a path leads if every name in it is that of a directory. -/
def destination (tree : FileTree) (path : Path) : Location :=
  path.components.foldl
    (fun here component =>
      if Path.isHere component then here
      else if Path.isAbove component then here.dropLast
      else here ++ [component])
    (tree.start path)

/-- The files of a tree with another content than in the tree `before`, or none there, each with
its path. -/
def changedFiles (before after : FileTree) : List (Path × Bytes) :=
  let changed := after.root.files.filter fun (there, content) =>
    !(before.root.get? there).any (Entry.hasContent content)
  changed.map fun (there, content) => (after.pathOf there, content)

/-- The files of a tree that are not in the tree `before`, each with its path, in the order of
their paths. -/
def newFiles (before after : FileTree) : List (Path × Bytes) :=
  let created := after.root.files.filter fun (there, _) => (before.root.get? there).isNone
  (created.map fun (there, content) => (after.pathOf there, content)).mergeSort
    fun a b => Text.notAfter a.1 b.1

end FileTree

end Manpage
