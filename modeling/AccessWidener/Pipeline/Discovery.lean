import AccessWidener.Directive.Reader
import AccessWidener.Pipeline.Fault
import AccessWidener.Pipeline.Settings

/-!
# Discovery

Discovery looks through the artifacts of a class path for mods whose directive file exports
something. An artifact is a mod if it is an archive with metadata; the metadata of the Quilt loader
comes first where that platform is enabled. Each path is looked at once, however often and in
whatever order it is listed.

## Main definitions

* `DirectiveFile`: A directive file with the mod that it belongs to.
* `extractDirectiveFile`: The directive file that a mod declares.
* `scanCandidate`: The same, if it exports anything.
* `scanAll`: What scanning a list of paths finds, one after the other or in parallel.
* `discover`: The exporting directive files of all candidates, by mod and path.
-/

namespace AccessWidener

/-- A directive file and the mod that it belongs to. -/
structure DirectiveFile where
  origin : String
  source : Path
  content : Bytes
  version : Nat
deriving DecidableEq, Repr

/-- Whether the format version of a file knows transitive directives. -/
def DirectiveFile.supportsTransitive (file : DirectiveFile) : Bool :=
  2 ≤ file.version

/-- The metadata that an archive holds for a schema, if it holds any. -/
def readMetadata (archive : Archive) (path : Path) (schema : Schema) :
    Except Fault (Option ModMetadata) :=
  match archive.contents? schema.entryName with
  | none => .ok none
  | some bytes =>
    match ModMetadata.parse schema bytes with
    | some metadata => .ok (some metadata)
    | none => .error (.metadata path schema)

/-- The metadata of an archive: that of Quilt if the platform is enabled and the archive has it,
    and that of Fabric otherwise. -/
def selectMetadata (archive : Archive) (path : Path) (platforms : List Platform) :
    Except Fault (Option ModMetadata) :=
  if .quilt ∈ platforms ∧ (archive.contents? Schema.quilt.entryName).isSome then
    readMetadata archive path .quilt
  else readMetadata archive path .fabric

/-- The directive file that the metadata of an archive declares, if the archive contains it. -/
def declaredFile (archive : Archive) (path : Path) (metadata : ModMetadata) :
    Except Fault (Option DirectiveFile) :=
  match metadata.location.bind archive.contents? with
  | none => .ok none
  | some content =>
    match readVersion content with
    | .error fault => .error (.directive fault)
    | .ok version => .ok (some { origin := metadata.id, source := path, content, version })

/-- The directive file that the mod at a path declares. Whatever is not an archive is no mod. -/
def extractDirectiveFile (tree : FileTree) (path : Path) (platforms : List Platform) :
    Except Fault (Option DirectiveFile) :=
  match tree.lookup path with
  | .ok (.archive archive) => do
    match ← selectMetadata archive path platforms with
    | none => .ok none
    | some metadata => declaredFile archive path metadata
  | _ => .ok none

/-- A directive file, if it exports anything. -/
def retain (file : DirectiveFile) : Except Fault (Option DirectiveFile) :=
  if !file.supportsTransitive then .ok none
  else
    match containsTransitive file.content with
    | .error fault => .error (.directive fault)
    | .ok exporting => .ok (if exporting then some file else none)

/-- The directive file that the mod at a path declares, if it exports anything. -/
def scanCandidate (tree : FileTree) (platforms : List Platform) (path : Path) :
    Except Fault (Option DirectiveFile) := do
  match ← extractDirectiveFile tree path platforms with
  | none => .ok none
  | some file => retain file

/-- The paths of a list, each once, by components. Of several spellings the last one stays. -/
def distinctPaths (paths : List Path) : List Path :=
  (paths.foldl (fun held path => held.insert path.components path)
    (∅ : Std.ExtTreeMap (List PathComponent) Path)).values

/-- Directive files are ordered by mod and then by path. -/
def DirectiveFile.compare (left right : DirectiveFile) : Ordering :=
  (Ord.compare left.origin right.origin).then
    (Ord.compare left.source.components right.source.components)

/-- What scanning a list of paths finds. In parallel every path is scanned, whatever becomes of the
    others, and the results are gathered in the order of the paths; otherwise a fault ends the scan
    before the next path. Either way the first fault in path order is the one that is reported. -/
def scanAll (tree : FileTree) (settings : Settings) (paths : List Path) :
    Except Fault (List (Option DirectiveFile)) :=
  let scan := scanCandidate tree settings.platforms
  if settings.parallel then (paths.map scan).mapM id else paths.mapM scan

/-- The exporting directive files of all candidates, by mod and path. -/
def discover (tree : FileTree) (settings : Settings) (candidates : List Path) :
    Except Fault (List DirectiveFile) := do
  let scanned ← scanAll tree settings (distinctPaths candidates)
  return (scanned.filterMap id).mergeSort fun left right => (left.compare right).isLE

end AccessWidener
