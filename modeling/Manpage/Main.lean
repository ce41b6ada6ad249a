import Manpage.Command.Run
import Manpage.Main.Codecs

/-!
# The program

The outer layer of the command: it looks at the files that the command may read, runs the command
on what it found, and writes what the command left.
-/

namespace Manpage.Program

open Command (Options World Outcome)

/-- The tree with the file or the directory that a path leads to, if there is one. -/
def load (tree : FileTree) (path : Path) : IO FileTree := do
  try
    let found ← IO.FS.realPath (String.ofList path)
    let there := tree.destination path
    if (tree.root.get? there).isSome then return tree
    else if ← found.isDir then return tree.put (.directory []) there
    else return tree.put (.file (← IO.FS.readBinFile found).toList) there
  catch _ => return tree

/-- The tree with the files of a directory. -/
def loadFiles (tree : FileTree) (directory : Path) : IO FileTree := do
  try
    let found ← IO.FS.realPath (String.ofList directory)
    (← found.readDir).foldlM (fun tree e => load tree (directory.join e.fileName.toList)) tree
  catch _ => return tree

/-- The sections of the directories of the manual path. -/
def sectionDirectories (e : Environment) : List Path :=
  (ManualPath.directories e).flatMap fun directory =>
    ManualPath.sections.map (Path.join directory)

/-- The text of the file that configures the manual, if it can be read. -/
def configuration? : IO (Option (List Char)) := do
  try return some (← IO.FS.readFile "/etc/man.conf").toList
  catch _ => return none

/-- What the command finds when it is asked for `o`. -/
def world (o : Options) : IO World := do
  let here := (← IO.currentDir).toString.toList
  let empty : FileTree := { root := .directory [] }
  let place := empty.destination here
  let tree := { empty with workingDirectory := place }.put (.directory []) place
  -- no other programs are run
  let setting? := (← IO.getEnv "MANPATH").map String.toList
  let environment :=
    { Environment.ofSystem setting? (fun _ => none) with configuration? := ← configuration? }
  let data := (← IO.getEnv "XDG_DATA_HOME").map String.toList
  let home := (← IO.getEnv "HOME").map fun home => Path.join home.toList ".local/share".toList
  let dataDirectory := (data.filter Path.isAbsolute).or home
  let tree ← (o.files ++ (o.outputDirectory dataDirectory).toList).foldlM load tree
  let tree ←
    if o.manualPath then (sectionDirectories environment).foldlM loadFiles tree else pure tree
  let stdin ←
    if o.readsStdin && o.completions.isNone then (← IO.getStdin).readBinToEnd
    else pure ByteArray.empty
  return { tree, stdin := stdin.toList, environment, dataDirectory }

/-- Writes what the command left. -/
def writeBack (o : Options) (before : World) (after : Outcome) : IO Unit := do
  if let some directory := o.outputDirectory before.dataDirectory then
    if !o.readsStdin && o.completions.isNone && after.tree.root.isDirectory then
      if (after.tree.find directory).toOption.any Entry.isDirectory then
        IO.FS.createDirAll (String.ofList directory)
  for (path, content) in before.tree.changedFiles after.tree do
    IO.FS.writeBinFile (String.ofList path) ⟨content.toArray⟩

end Manpage.Program

open Manpage in
/-- Runs the command with the arguments of the process. -/
def main (arguments : List String) : IO UInt32 := do
  let arguments := arguments.map String.toList
  let options := (Command.Options.parse arguments).toOption
  let world ←
    match options with
    | some o => Program.world o
    | none => pure { tree := { root := .directory [] } }
  let outcome := Command.run Program.codecs arguments world
  (← IO.getStdout).putStr (String.ofList outcome.stdout)
  for e in outcome.failures ++ outcome.error.toList do
    IO.eprintln e.message
  if let some o := options then Program.writeBack o world outcome
  return outcome.status.toUInt32
