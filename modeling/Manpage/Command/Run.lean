import Manpage.Command.Options
import Manpage.Files.ManualPath
import Manpage.Page

/-!
# The command

What the command does: it converts pages, from files or from its standard input, to files in a
directory or to its standard output.  A page that fails does not keep the others from being
converted.  Archives and character sets are left to the codecs that the command is given.

## Main definitions

* `Command.World`: what the command finds.
* `Command.Outcome`: what the command leaves.
* `Command.render`: a page as the options ask for it.
* `Command.run`: the command.
-/

namespace Manpage.Command

/-- What the command finds. -/
structure World where
  /-- The files. -/
  tree : FileTree
  /-- The standard input. -/
  stdin : Bytes := []
  environment : Environment := {}
  /-- The directory for the data of programs. -/
  dataDirectory : Option Path := none

/-- What the command leaves. -/
structure Outcome where
  /-- The exit status. -/
  status : Nat
  /-- The standard output. -/
  stdout : List Char := []
  /-- The files. -/
  tree : FileTree
  /-- What went wrong, page by page. -/
  failures : List PageError := []
  /-- The reason why the run as a whole failed. -/
  error : Option PageError := none

/-- The name and the version of the command. -/
def versionText : String := "man2html 0.1.0\n"

/-- A summary of the options. -/
def helpText : String := "Usage: man2html [OPTIONS] [FILES]...\n"

/-- The name of the standard input in errors. -/
def stdinName : String := "STDIN"

/-- Whether the page is read from the standard input. -/
def Options.readsStdin (o : Options) : Bool :=
  !o.manualPath && o.files == []

/-- The directory that pages go to; none if they go to the standard output. -/
def Options.outputDirectory (o : Options) (dataDirectory : Option Path) : Option Path :=
  if o.stdout || o.links then none
  else
    let usual := (dataDirectory.map (Path.join · "man2html".toList)).getD "man2html".toList
    some (o.directory.getD usual)

/-- A page as the options ask for it. -/
def render (o : Options) (text : List Char) : List Char :=
  if o.links then (Page.contents text).flatMap (· ++ ['\n'])
  else if o.raw then Page.rawHtml text
  else Page.html text

variable (codecs : Codecs)

/-- The rendered text of a page. -/
def renderFile (o : Options) (tree : FileTree) (path : Path) : Except PageError (List Char) :=
  (Source.readPage codecs tree path).map (render o)

/-- The tree with the rendered page in the directory at a location, which is called `directory` in
errors. -/
def convertInto (o : Options) (directory : Path) (here : Location) (tree : FileTree) (path : Path) :
    Except PageError FileTree := do
  let rendered ← renderFile codecs o tree path
  let some name := Source.outputName? path | throw (.file path .noFileName)
  let target := Path.join directory name
  if target.isTooLong then throw (.file target (.files .nameTooLong))
  match tree.addFile here name (Utf8.encode rendered) with
  | .ok tree => return tree
  | .error e => throw (.file target (.files e))

/-- The reason why a run over `total` pages with the given failures failed, if it did. -/
def batchError (failures : List PageError) (total : Nat) : Option PageError :=
  if failures = [] then none else some (.failed failures.length total)

/-- What a run over `total` pages leaves. -/
def batchOutcome (stdout : List Char) (tree : FileTree) (failures : List PageError)
    (total : Nat) : Outcome :=
  let error := batchError failures total
  { status := if error.isSome then 1 else 0, stdout, tree, failures, error }

/-- Converts pages to the standard output. -/
def convertToStdout (o : Options) (tree : FileTree) (paths : List Path) : Outcome :=
  let results := paths.map (renderFile codecs o tree)
  let failures := results.filterMap fun
    | .ok _ => none
    | .error e => some e
  let stdout := results.flatMap fun
    | .ok text => text
    | .error _ => []
  batchOutcome stdout tree failures paths.length

/-- Converts pages into the directory at a location, one after the other. -/
def convertAllInto (o : Options) (directory : Path) (here : Location) :
    FileTree → List Path → FileTree × List PageError
  | tree, [] => (tree, [])
  | tree, path :: paths =>
    match convertInto codecs o directory here tree path with
    | .ok tree => convertAllInto o directory here tree paths
    | .error e =>
      let (tree, failures) := convertAllInto o directory here tree paths
      (tree, e :: failures)

/-- A run that ends before any page is converted. -/
def stopped (tree : FileTree) (e : PageError) : Outcome :=
  { status := 1, tree, error := some e }

/-- Converts the page on the standard input. -/
def convertStdin (o : Options) (w : World) : Outcome :=
  match Source.readBytes codecs w.stdin stdinName.toList with
  | .ok text => { status := 0, stdout := render o text, tree := w.tree }
  | .error e => stopped w.tree e

/-- The pages to convert: the files that are given, and those of the manual path if that is asked
for. -/
def pagePaths (o : Options) (w : World) : Except PageError (List Path) := do
  if o.manualPath then
    return o.files ++ (← ManualPath.pages w.tree (ManualPath.directories w.environment))
  else return o.files

/-- Converts pages. -/
def convertFiles (o : Options) (w : World) : Outcome :=
  match pagePaths o w with
  | .error e => stopped w.tree e
  | .ok paths =>
    match o.outputDirectory w.dataDirectory with
    | none => convertToStdout codecs o w.tree paths
    | some directory =>
      match w.tree.createDirectories directory with
      | .error e => stopped w.tree (.file directory (.files e))
      | .ok (tree, here) =>
        let (tree, failures) := convertAllInto codecs o directory here tree paths
        batchOutcome [] tree failures paths.length

/-- The command with the given options. -/
def perform (o : Options) (w : World) : Outcome :=
  if o.completions.isSome then { status := 0, tree := w.tree }
  else if o.readsStdin then convertStdin codecs o w
  else convertFiles codecs o w

/-- The command with the given arguments.  A mistake in these ends it with the status 2. -/
def run (arguments : List (List Char)) (w : World) : Outcome :=
  match Options.parse arguments with
  | .ok o => perform codecs o w
  | .error .version => { status := 0, stdout := versionText.toList, tree := w.tree }
  | .error .help => { status := 0, stdout := helpText.toList, tree := w.tree }
  | .error (.error _) => { status := 2, tree := w.tree }

end Manpage.Command
