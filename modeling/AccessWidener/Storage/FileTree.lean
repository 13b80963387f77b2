import AccessWidener.Storage.Archive
import AccessWidener.Storage.Path
import AccessWidener.Text.Utf8

/-!
# File Trees

A file tree holds directories, plain files and archives. Relative paths start in one of its
directories, its home. A directory exists when it was made or when anything lies below it.

## Main definitions

* `StorageFault`: Why a path cannot be read, and `StorageFault.message`, the wording.
* `Node`, `FileTree`: What a path can lead to.
* `FileTree.lookup`: What a path leads to.
* `FileTree.readBytes`, `FileTree.readText`, `FileTree.openArchive`: The contents of a file.
* `FileTree.put`, `FileTree.filesBelow`: Storing a file, and listing a directory.
-/

namespace AccessWidener

/-- Why a path cannot be read. -/
inductive StorageFault where
  | notFound
  | notDirectory
  | isDirectory
  | notUtf8
deriving DecidableEq, Repr

/-- The wording of a storage fault. -/
def StorageFault.message : StorageFault → String
  | notFound => "No such file or directory (os error 2)"
  | notDirectory => "Not a directory (os error 20)"
  | isDirectory => "Is a directory (os error 21)"
  | notUtf8 => "stream did not contain valid UTF-8"

/-- What a path can lead to. -/
inductive Node where
  | directory
  | file (contents : Bytes)
  | archive (entries : Archive)
deriving DecidableEq, Repr

/-- Nodes by the names that lead to them from the root, and the directory in which relative paths
    start. -/
structure FileTree where
  home : List String := []
  nodes : List (List String × Node) := []
deriving DecidableEq, Repr

namespace FileTree

/-- The node reached through a list of names. -/
def nodeAt? (tree : FileTree) (names : List String) : Option Node :=
  match tree.nodes.find? (·.1 = names) with
  | some (_, node) => some node
  | none =>
    if names.isPrefixOf tree.home || tree.nodes.any (fun entry => names.isPrefixOf entry.1) then
      some .directory
    else none

/-- The directory that a component leads to from another one. The root has no parent but itself. -/
def step (names : List String) : PathComponent → List String
  | .root => []
  | .current => names
  | .parent => names.dropLast
  | .name text => names ++ [text]

/-- The names that a list of components leads to, starting from the directory `names`. Every
    component but the last has to lead to a directory. -/
def walk (tree : FileTree) (names : List String) :
    List PathComponent → Except StorageFault (List String)
  | [] => .ok names
  | component :: rest =>
    match tree.nodeAt? names with
    | none => .error .notFound
    | some .directory => walk tree (step names component) rest
    | some _ => .error .notDirectory

/-- The names that a path leads to. The empty path leads nowhere. -/
def resolve (tree : FileTree) (path : Path) : Except StorageFault (List String) :=
  if path.spelling = "" then .error .notFound else tree.walk tree.home path.components

/-- The node that a path leads to. -/
def lookup (tree : FileTree) (path : Path) : Except StorageFault Node := do
  match tree.nodeAt? (← tree.resolve path) with
  | none => .error .notFound
  | some .directory => .ok .directory
  | some node => if path.requiresDirectory then .error .notDirectory else .ok node

/-- Whether a path leads to a directory. -/
def isDirectory (tree : FileTree) (path : Path) : Bool :=
  tree.lookup path matches .ok .directory

/-- Whether a path leads to a plain file or an archive. -/
def isFile (tree : FileTree) (path : Path) : Bool :=
  tree.lookup path matches .ok (.file _) | .ok (.archive _)

/-- The archive that a path leads to; `none` if it leads to something else. -/
def openArchive (tree : FileTree) (path : Path) : Except StorageFault (Option Archive) := do
  match ← tree.lookup path with
  | .archive entries => .ok (some entries)
  | _ => .ok none

/-- The contents of a file. An archive is not text, and is reported as such. -/
def readBytes (tree : FileTree) (path : Path) : Except StorageFault Bytes := do
  match ← tree.lookup path with
  | .directory => .error .isDirectory
  | .file contents => .ok contents
  | .archive _ => .error .notUtf8

/-- The contents of a text file. -/
def readText (tree : FileTree) (path : Path) : Except StorageFault (List Char) := do
  match Utf8.decode (← tree.readBytes path) with
  | .ok text => .ok text
  | .error _ => .error .notUtf8

/-- The tree with a node stored under a list of names. -/
def put (tree : FileTree) (names : List String) (node : Node) : FileTree :=
  { tree with nodes :=
    if tree.nodes.any (·.1 = names) then
      tree.nodes.map fun entry => if entry.1 = names then (names, node) else entry
    else tree.nodes ++ [(names, node)] }

/-- The tree with a node stored under a path, whose directories are made if need be. -/
def store (tree : FileTree) (path : Path) (node : Node) : FileTree :=
  tree.put (path.components.foldl step tree.home) node

/-- The names, below a directory, of every file and archive in it. -/
def filesBelow (tree : FileTree) (directory : List String) : List (List String) :=
  tree.nodes.filterMap fun (names, node) =>
    match node with
    | .directory => none
    | _ => (directory.isPrefixOf? names).filter (· ≠ [])

end FileTree

end AccessWidener
