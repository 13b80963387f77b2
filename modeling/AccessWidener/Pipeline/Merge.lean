import AccessWidener.Directive.Set
import AccessWidener.Mapping.Stage
import AccessWidener.Pipeline.Discovery

/-!
# Merging

Merging collects what directive files export, taken into the namespace of a project, together
with the directives of the project itself.

## Main definitions

* `exportedStream`: What a file exports, renamed.
* `mergeFile`, `mergeDirectives`: A set with the exports of one file, or of all files and the
  project.
-/

namespace AccessWidener

/-- The transitive directives of a file, taken from one namespace into another. -/
def exportedStream (symbols : Symbols) (source target : Namespace) (file : DirectiveFile) :
    EventStream :=
  ((readEvents file.content).through onlyTransitive).through
    (renamingStage symbols source target file.origin)

/-- A set with the exports of a file. -/
def mergeFile (symbols : Symbols) (source target : Namespace) (merged : DirectiveSet)
    (file : DirectiveFile) : Except DirectiveFault DirectiveSet :=
  match (exportedStream symbols source target file).deliver DirectiveSet.visit merged with
  | (_, some fault) => .error fault
  | (collected, none) => .ok collected

/-- The exports of all files, in the namespace `target`, together with the directives of the
    project. -/
def mergeDirectives (localSet : DirectiveSet) (files : List DirectiveFile) (symbols : Symbols)
    (source target : Namespace) : Except DirectiveFault DirectiveSet := do
  let merged ← files.foldlM (mergeFile symbols source target) (.inNamespace target)
  merged.union localSet

end AccessWidener
