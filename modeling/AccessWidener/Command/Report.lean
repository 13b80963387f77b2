import AccessWidener.Directive.Set
import AccessWidener.Pipeline.Processor
import AccessWidener.Text.Json

/-!
# Reports

A command that succeeds reports in JSON. The members of a report have a fixed order.

## Main definitions

* `checkReport`: What a directive file holds.
* `fileReport`: A directive file that discovery found.
* `identityReport`: The identity of everything that discovery found.
* `applyReport`: What became of an archive.
-/

namespace AccessWidener

/-- The report on a directive file. -/
def checkReport (path : Path) (header : Header) (directives : List Directive) : Json :=
  .record [
    ("path", .text path.spelling),
    ("version", .natural header.version),
    ("namespace", .text header.ns.token),
    ("directives", .natural directives.length),
    ("transitive", .natural (directives.filter (·.transitive)).length),
    ("targets", .natural (DirectiveSet.ofDirectives directives).size)]

/-- The report on a discovered directive file. -/
def fileReport (file : DirectiveFile) : Json :=
  .record [
    ("origin_id", .text file.origin),
    ("source", .text file.source.spelling),
    ("version", .natural file.version),
    ("bytes", .natural file.content.length)]

/-- The identity of a processor, null if nothing is exported. -/
def identityReport (processor : Processor ClassPathResolver) : Json :=
  match processor.key? with
  | some key => .text (cacheIdentity key)
  | none => .null

/-- The report on a widened archive. -/
def applyReport (archive : Path) (processor : Processor ClassPathResolver) (changed : Bool) :
    Json :=
  .record [
    ("archive", .text archive.spelling),
    ("transitive_files", .natural processor.files.length),
    ("cache_identity", identityReport processor),
    ("changed", .boolean changed)]

end AccessWidener
