import AccessWidener.Directive.Basic
import AccessWidener.Storage.FileTree

/-!
# Faults of Mappings and Class Paths

What can go wrong while symbol lookups are prepared or given up.

## Main definitions

* `MappingDefect`: Why the text of a mapping file is refused.
* `MappingFault`, `MappingFault.message`: All faults, and their wording.
-/

namespace AccessWidener

/-- Why the text of a mapping file is refused. -/
inductive MappingDefect where
  | empty
  | badHeader
  | nameCount (expected got : Nat)
  | memberOutsideClass
  | missingDescriptor
  | unknownSection (word : String)
  | other (text : String)
deriving DecidableEq, Repr

/-- The wording of a defect. -/
def MappingDefect.message : MappingDefect → String
  | empty => "empty mappings"
  | badHeader => "expected a tiny v2 header"
  | nameCount expected got => s!"expected {expected} names, got {got}"
  | memberOutsideClass => "member outside a class"
  | missingDescriptor => "missing descriptor"
  | unknownSection word => s!"unknown section '{word}'"
  | other text => text

/-- What can go wrong while symbol lookups are prepared or given up. -/
inductive MappingFault where
  | storage (fault : StorageFault)
  | archive (path : Path)
  | defect (line : Nat) (cause : MappingDefect)
  | missingNamespace (ns : Namespace)
deriving DecidableEq, Repr

/-- The wording of a fault. -/
def MappingFault.message : MappingFault → String
  | storage fault => s!"IO error: {fault.message}"
  | archive path => s!"Archive error in {path.spelling}: not an archive"
  | defect line cause => s!"Invalid mappings (line {line}): {cause.message}"
  | missingNamespace ns => s!"Mappings do not declare namespace {ns.token}"

end AccessWidener
