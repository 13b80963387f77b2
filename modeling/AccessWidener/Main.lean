import AccessWidener.Command.Run
import AccessWidener.Storage.Zip

/-!
# The Program

The program loads the files that a command line names into a file tree, runs the command on it, and
writes back the archive that the command has changed. A file that cannot be read for another
reason than those that a file tree knows ends the program before anything is written.

## Main definitions

* `Disk.load`: The file tree of the files that a command names.
* `Disk.save`: Writes an archive that has changed.
* `main`: The program.
-/

namespace AccessWidener

namespace Disk

/-- What a path leads to on disk. Only an artifact is taken for an archive. -/
def node? (artifact : Bool) (path : Path) : IO (Option Node) := do
  let place := (← IO.currentDir) / path.spelling
  if ← place.isDir then return some .directory
  if !(← place.pathExists) then return none
  let contents ← IO.FS.readBinFile place
  let archive? := if artifact then (ZipFile.parse contents).bind ZipFile.toArchive? else none
  match archive? with
  | some archive => return some (.archive archive)
  | none => return some (.file contents.data.toList)

/-- The tree with what a list of components leads to. -/
def loadNode (artifact : Bool) (tree : FileTree) (components : List PathComponent) :
    IO FileTree := do
  match ← node? artifact (.ofComponents components) with
  | some node => return tree.put (components.foldl FileTree.step tree.home) node
  | none => return tree

/-- The tree with what a path leads to, and with the directories on the way. -/
def loadPath (artifact : Bool) (tree : FileTree) (path : Path) : IO FileTree :=
  let components := path.components
  ((List.range components.length).map fun count => components.take (count + 1)).foldlM
    (loadNode artifact) tree

/-- The tree with the archives below a directory. -/
partial def loadBelow (tree : FileTree) (directory : Path) : IO FileTree := do
  let entries ← ((← IO.currentDir) / directory.spelling).readDir
  entries.foldlM (fun tree entry => do
    let path := directory.join entry.fileName
    if ← entry.path.isDir then loadBelow tree path
    else if looksLikeArchive path then loadPath true tree path
    else return tree) tree

/-- The tree with an archive, or with the archives below a directory. -/
def loadArtifact (tree : FileTree) (path : Path) : IO FileTree := do
  let tree ← loadPath true tree path
  if tree.isDirectory path then loadBelow tree path else return tree

/-- The file tree of the files that a command names. -/
def load (command : Command) : IO FileTree := do
  let directory : Path := ⟨(← IO.currentDir).toString⟩
  let tree : FileTree := { home := directory.components.foldl FileTree.step [] }
  command.artifacts.foldlM loadArtifact (← command.documents.foldlM (loadPath false) tree)

/-- Writes the archive that a command has changed, next to its place and then into it. -/
def save (path : Path) (archive : Archive) : IO Unit := do
  match ZipFile.parse (← IO.FS.readBinFile path.spelling) with
  | none => throw (.userError s!"{path.spelling} is no archive any more")
  | some file =>
    let beside := path.spelling ++ ".widened"
    IO.FS.writeBinFile beside ⟨(file.update archive).render.toArray⟩
    IO.FS.rename beside path.spelling

/-- Writes the archive of a command if the command has changed it. -/
def saveChanges (command : Command) (before after : FileTree) : IO Unit :=
  match command with
  | .apply path _ =>
    match before.openArchive path, after.openArchive path with
    | .ok (some held), .ok (some archive) => if held = archive then return () else save path archive
    | _, _ => return ()
  | _ => return ()

/-- Runs a command line on the files that it names. -/
def run (arguments : List String) : IO Outcome := do
  match Request.ofArguments arguments with
  | .run command =>
    let before ← load command
    let (after, outcome) := execute before arguments
    saveChanges command before after
    return outcome
  | _ => return (execute {} arguments).2

end Disk

end AccessWidener

open AccessWidener in
/-- Runs the command line, and reports what the file system refuses. -/
def main (arguments : List String) : IO UInt32 := do
  let outcome ← try Disk.run arguments catch error =>
    pure { exitCode := 1, errors := Failure.render { summary := toString error } }
  IO.print outcome.output
  IO.eprint outcome.errors
  return outcome.exitCode.toUInt32
