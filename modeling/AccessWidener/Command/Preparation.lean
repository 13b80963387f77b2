import AccessWidener.Command.Arguments
import AccessWidener.Command.Failure
import AccessWidener.Pipeline.Processor

/-!
# Preparation

Before a command can look for directive files, its options have to become a processor. The
configuration file comes first, then the mappings, then the directives of the project itself, and
discovery last; the first of them that fails is the one reported.

## Main definitions

* `readSettings`, `loadSettings`: The settings of a command, options before the file.
* `expandPaths`: Paths with every directory replaced by the archives below it.
* `readMappings`, `readLocal`: The other files that options name.
* `prepare`: The processor that options describe.
-/

namespace AccessWidener

/-- The settings that a file holds. -/
def readSettings (tree : FileTree) (path : Path) : Except Fault Settings :=
  match tree.readText path with
  | .error fault => .error (.storage fault)
  | .ok text =>
    match Settings.parse text with
    | .error fault => .error (.settings fault)
    | .ok settings => .ok settings

/-- The options that replace settings. -/
def Options.overrides (options : Options) : Overrides where
  source := options.source
  target := options.target
  platforms := options.platforms

/-- The settings of a command: those of its configuration file, which have to fit together by
    themselves, or else the defaults, with the options in place of what they replace. -/
def loadSettings (tree : FileTree) (options : Options) : Except Failure Settings := do
  let base ← match options.config with
    | none => pure {}
    | some path =>
      attempt s!"Failed to load config {path.spelling}" (readSettings tree path)
  match (base.override options.overrides).checked with
  | .ok settings => .ok settings
  | .error fault => .error (.ofFault (.settings fault))

/-- Whether a path is named like an archive. -/
def looksLikeArchive (path : Path) : Bool :=
  path.extension? = some "jar" || path.extension? = some "zip"

/-- The archives below a directory, in path order. -/
def archivesBelow (tree : FileTree) (directory : Path) (names : List String) : List Path :=
  let files := (tree.filesBelow names).map (·.foldl Path.join directory)
  (files.filter looksLikeArchive).mergeSort fun left right =>
    (compare left.components right.components).isLE

/-- The paths with every directory replaced by the archives below it. -/
def expandPaths (tree : FileTree) (paths : List Path) : List Path :=
  paths.flatMap fun path =>
    match tree.resolve path, tree.isDirectory path with
    | .ok names, true => archivesBelow tree path names
    | _, _ => [path]

/-- Mappings between two namespaces that hold no names. -/
def emptyMappings (source target : Namespace) : List Char :=
  s!"tiny\t2\t0\t{source.token}\t{target.token}\n".toList

/-- The text of the mapping file of a command, or of empty mappings. -/
def readMappings (tree : FileTree) (options : Options) (settings : Settings) :
    Except Failure (List Char) :=
  match options.mappings with
  | none => .ok (emptyMappings settings.source settings.target)
  | some path =>
    match tree.readText path with
    | .ok text => .ok text
    | .error fault =>
      .error (.during s!"Failed to read mappings {path.spelling}" (Fault.storageChain fault))

/-- The contents of a file that a command was given. -/
def readGiven (tree : FileTree) (path : Path) : Except Failure Bytes :=
  match tree.readBytes path with
  | .ok contents => .ok contents
  | .error fault => .error (.during s!"Failed to read {path.spelling}" [fault.message])

/-- The directives of the project itself, spelled in a namespace. -/
def readLocal (tree : FileTree) (options : Options) (ns : Namespace) :
    Except Failure DirectiveSet :=
  match options.localFile with
  | none => .ok .empty
  | some path => do
    let contents ← readGiven tree path
    match (readEvents contents (some ns)).deliver DirectiveSet.visit .empty with
    | (set, none) => .ok set
    | (_, some fault) =>
      .error (.during s!"Invalid local access widener {path.spelling}" [fault.message])

/-- The processor that options describe. -/
def prepare (tree : FileTree) (options : Options) :
    Except Failure (Processor ClassPathResolver) := do
  let settings ← loadSettings tree options
  let environment : ListedEnvironment :=
    ({ platforms := settings.platforms : ListedEnvironment }.addArtifacts
      (expandPaths tree options.classPath)).addNamespaceJars settings.source
        (expandPaths tree options.namespaceJars)
  let mappings ← readMappings tree options settings
  let localSet ← readLocal tree options settings.target
  match Processor.create tree settings environment.toEnvironment (tinyEngine mappings) with
  | .error fault => .error (.ofFault fault)
  | .ok processor => .ok (processor.withLocal localSet)

end AccessWidener
