import AccessWidener.ClassPath.Session
import AccessWidener.Pipeline.CacheKey
import AccessWidener.Pipeline.Environment
import AccessWidener.Pipeline.Merge
import AccessWidener.Pipeline.Widener

/-!
# Processors

A processor brings the access that dependencies export to the archive that a project compiles
against. Discovery runs once, when the processor is made; merging and widening use its result.

## Main definitions

* `Processor`, `Processor.create`: A processor and how it is made.
* `Processor.key?`, `Processor.identity`: How a build cache tells processors apart.
* `Processor.mergedWith`, `Processor.merged`: The directives to apply.
* `Processor.process`: Widening an archive.
-/

namespace AccessWidener

/-- What a run knows once discovery is done. -/
structure Processor (ρ : Type) where
  settings : Settings
  environment : Environment
  engine : Engine ρ
  files : List DirectiveFile
  localSet : DirectiveSet := {}

namespace Processor

variable {ρ : Type}

/-- A processor for checked settings, with the exporting files of the compile class path. -/
def create (tree : FileTree) (settings : Settings) (environment : Environment)
    (engine : Engine ρ) : Except Fault (Processor ρ) := do
  match settings.checked with
  | .error fault => .error (.settings fault)
  | .ok settings =>
    let files ← discover tree settings environment.artifacts
    return { settings, environment, engine, files }

/-- The processor with the directives of the project itself, spelled in the target namespace. -/
def withLocal (processor : Processor ρ) (localSet : DirectiveSet) : Processor ρ :=
  { processor with localSet }

/-- Whether no dependency exports anything. -/
def isEmpty (processor : Processor ρ) : Bool :=
  processor.files.isEmpty

/-- The key of the contributors. -/
def key? (processor : Processor ρ) : Option String :=
  cacheKey processor.files

/-- The identity of the contributors, of which there has to be one. -/
def identity (processor : Processor ρ) : Except Fault String :=
  match processor.key? with
  | some key => .ok (cacheIdentity key)
  | none => .error (.precondition .identityOfNothing)

/-- A session between the two namespaces of the settings, over the archives of the first. -/
def openSession (tree : FileTree) (processor : Processor ρ) : Except Fault (Session ρ) :=
  match processor.environment.namespaceJars processor.settings.source with
  | .error fault => .error (.environment fault)
  | .ok classPath =>
    match Session.openWith processor.engine tree processor.settings.source
        processor.settings.target classPath with
    | .error fault => .error (.mapping fault)
    | .ok session => .ok session

/-- The merge of the processor under a symbol lookup. -/
def mergeUnder (processor : Processor ρ) (symbols : Symbols) : Except Fault DirectiveSet :=
  match mergeDirectives processor.localSet processor.files symbols processor.settings.source
      processor.settings.target with
  | .ok merged => .ok merged
  | .error fault => .error (.directive fault)

variable [Resolver ρ]

/-- The directives to apply, and the resolver that is left behind if one was built. -/
def mergedWith (tree : FileTree) (processor : Processor ρ) :
    Option ρ × Except Fault DirectiveSet :=
  match processor.openSession tree with
  | .error fault => (none, .error fault)
  | .ok session =>
    let (left, result) := session.use Fault.mapping processor.mergeUnder
    (some left, result)

/-- The directives to apply. -/
def merged (tree : FileTree) (processor : Processor ρ) : Except Fault DirectiveSet :=
  (processor.mergedWith tree).2

/-- Widens the archive at a path, and tells whether anything in it changed. -/
def process (tree : FileTree) (processor : Processor ρ) (path : Path) :
    FileTree × Except Fault Bool :=
  if processor.isEmpty then (tree, .error (.precondition .processingNothing))
  else
    match processor.merged tree with
    | .error fault => (tree, .error fault)
    | .ok merged =>
      match Widener.ofSet merged with
      | .error fault => (tree, .error fault)
      | .ok widener => widener.apply tree path

end Processor

end AccessWidener
