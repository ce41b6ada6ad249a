import Manpage.Source

/-!
# The manual path

Where the pages of the manual are: the directories of the manual path, and the pages in their
sections.

## Main definitions

* `Environment.ofSystem`, `ManualPath.commands`: the programs that are asked for the manual path.
* `ManualPath.ofConfiguration`: the directories that a configuration file gives.
* `ManualPath.directories`: the directories of the manual path.
* `ManualPath.pagesBy`, `ManualPath.pages`: the pages in directories, of any file system or in a
  tree.
-/

namespace Manpage

/-- What a program gave when it was run. -/
structure ProgramResult where
  /-- What it wrote, with a replacement character for what is no UTF-8. -/
  stdout : List Char
  status : Int
  deriving DecidableEq, Repr

/-- What the manual path is taken from. -/
structure Environment where
  /-- The value of the variable that sets the manual path, if it is set. -/
  setting? : Option (List Char) := none
  /-- What the programs that tell the manual path gave, if they exist, in the order in which they
  are asked. -/
  programs : List (Option ProgramResult) := []
  /-- The text of the configuration file, if it can be read. -/
  configuration? : Option (List Char) := none

namespace ManualPath

/-- The programs that tell the manual path, with their arguments, in the order in which they are
asked. -/
def commands : List (List String) :=
  [["manpath"], ["man", "--path"]]

end ManualPath

/-- The environment in which the variable is set as given, programs give what `run` tells of them,
and there is no configuration file.  Of programs that do not exist `run` tells nothing. -/
def Environment.ofSystem (setting? : Option (List Char))
    (run : List String → Option ProgramResult) : Environment :=
  { setting?, programs := ManualPath.commands.map run }

namespace ManualPath

/-- The directories in a list with colons between them. -/
def split (list : List Char) : List Path :=
  (Text.pieces (· == ':') list).filter (· ≠ [])

/-- The directories that a program gave; none if it failed or does not exist. -/
def ofProgram (result : Option ProgramResult) : List Path :=
  match result with
  | some r => if r.status = 0 then split (Text.trim r.stdout) else []
  | none => []

/-- The directory that a line of a configuration file gives: the second word of a line that speaks
of the manual path and is no comment. -/
def ofConfigurationLine? (line : List Char) : Option Path :=
  let speaks := Text.holds "manpath".toList line || Text.holds "MANPATH".toList line
  if (Text.trimStart line).head? = some '#' || !speaks then none
  else ((Text.pieces Text.isBlank line).filter (· ≠ []))[1]?

/-- The directories that a configuration file gives; none if it cannot be read. -/
def ofConfiguration (text : Option (List Char)) : List Path :=
  (text.map fun text => (Text.lines text).filterMap ofConfigurationLine?).getD []

/-- The directories to search if nothing tells the manual path. -/
def usual : List Path :=
  ["/usr/share/man".toList, "/usr/local/share/man".toList]

/-- The directories of the manual path: from the variable, or else from the first program that
gives any, or else from the configuration file, or else the usual ones. -/
def directories (e : Environment) : List Path :=
  let sources := (e.setting?.map split).getD [] :: e.programs.map ofProgram ++
    [ofConfiguration e.configuration?]
  (sources.find? (· ≠ [])).getD usual

/-- The names of the directories that hold the sections of the manual. -/
def sections : List (List Char) :=
  (List.range 9).map fun n => "man".toList ++ Nat.toDigits 10 (n + 1)

variable {ε : Type}

/-- Whether an entry is known to be no directory. -/
def isPage (e : ListedEntry ε) : Bool :=
  match e.isDirectory with
  | .ok isDirectory => !isDirectory
  | .error _ => false

/-- The pages in the directory of a section.  There are none in one that cannot be read. -/
def pagesOfSection (read : DirectoryReader ε) (directory : Path) : List Path :=
  match read directory with
  | .error _ => []
  | .ok listing =>
    let entries := (listing.items.filterMap Except.toOption).filter isPage
    Path.sorted (entries.map fun e => Path.join directory e.name)

/-- The pages in a directory of the manual path, section by section. -/
def pagesIn (read : DirectoryReader ε) (directory : Path) : List Path :=
  sections.flatMap fun sect => pagesOfSection read (Path.join directory sect)

/-- The pages in the directories of the manual path as a file system lists them; there must be
some. -/
def pagesBy (read : DirectoryReader ε) (directories : List Path) :
    Except PageError (List Path) :=
  match directories.flatMap (pagesIn read) with
  | [] => .error .noPages
  | pages => .ok pages

/-- The pages in the directories of the manual path; there must be some. -/
def pages (tree : FileTree) (directories : List Path) : Except PageError (List Path) :=
  pagesBy tree.readDirectory directories

end ManualPath

end Manpage
