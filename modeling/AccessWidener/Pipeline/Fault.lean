import AccessWidener.ClassFile.Cursor
import AccessWidener.Directive.Fault
import AccessWidener.Mapping.Fault
import AccessWidener.Mod.Metadata
import AccessWidener.Pipeline.Settings

/-!
# Faults of a Run

What can go wrong between the discovery of directive files and the widening of an archive.

## Main definitions

* `Precondition`: What a caller has to make sure of.
* `Fault`: All faults.
* `Fault.chain`: The wording of a fault and of the faults behind it, outermost first.
-/

namespace AccessWidener

/-- What a caller has to make sure of. -/
inductive Precondition where
  | identityOfNothing
  | processingNothing
  | emptyDirectiveSet
deriving DecidableEq, Repr

/-- The wording of a broken precondition. -/
def Precondition.message : Precondition → String
  | identityOfNothing => "cache identity requested without transitive access wideners"
  | processingNothing => "process called without transitive access wideners"
  | emptyDirectiveSet => "cannot transform with an empty directive set"

/-- What the surroundings of a run cannot provide. -/
inductive EnvironmentFault where
  | srgWithoutForge
  | other (text : String)
deriving DecidableEq, Repr

/-- The wording of a fault of the surroundings. -/
def EnvironmentFault.message : EnvironmentFault → String
  | srgWithoutForge => "srg jars are only available on Forge"
  | other text => text

/-- What can go wrong in a run. -/
inductive Fault where
  | directive (fault : DirectiveFault)
  | mapping (fault : MappingFault)
  | classFile (entry : String) (fault : ClassFault)
  | storage (fault : StorageFault)
  | archive (path : Path)
  | metadata (path : Path) (schema : Schema)
  | settings (fault : SettingsFault)
  | environment (fault : EnvironmentFault)
  | precondition (broken : Precondition)
deriving DecidableEq, Repr

namespace Fault

/-- The wording of a storage fault and of its cause, which read alike. -/
def storageChain (fault : StorageFault) : List String :=
  [s!"IO error: {fault.message}", fault.message]

/-- The wording of a fault, followed by that of each fault behind it. -/
def chain : Fault → List String
  | directive fault => [fault.message]
  | mapping (.storage fault) => storageChain fault
  | mapping fault => [fault.message]
  | classFile entry fault => [s!"Class file error in {entry}: {fault.message}", fault.message]
  | storage fault => storageChain fault
  | archive path => [s!"Archive error in {path.spelling}: not an archive"]
  | metadata path schema => [s!"Invalid mod metadata {schema.entryName} in {path.spelling}"]
  | settings .unreadable => ["Failed to parse configuration"]
  | settings (.conflict cause) => [s!"Invalid configuration: {cause.message}"]
  | environment fault => [s!"Build environment error: {fault.message}"]
  | precondition broken => [s!"Precondition violated: {broken.message}"]

/-- The wording of a fault alone. -/
def message (fault : Fault) : String :=
  fault.chain.headD ""

end Fault

end AccessWidener
