import AccessWidener.Directive.Stream
import AccessWidener.Mapping.Symbols

/-!
# Renaming Directive Streams

A renaming stage takes a stream from one namespace into another. Its header has to declare the
first namespace and leaves declaring the second; every directive has to resolve.

## Main definitions

* `renamingStage`: The stage for a symbol lookup.
-/

namespace AccessWidener

/-- Takes events from one namespace into another. A symbol that does not resolve is reported
    with the origin of the stream and as the stream spells it. -/
def renamingStage (symbols : Symbols) (source target : Namespace) (origin : String) : Stage
  | .header ns =>
    if ns = source then .ok (some (.header target))
    else .error (.namespaceMismatch source ns)
  | .directive d =>
    match symbols.rename? d.target with
    | some renamed => .ok (some (.directive { d with target := renamed }))
    | none => .error (.unresolved origin d.target)

end AccessWidener
