import AccessWidener.Directive.Basic
import AccessWidener.Text.Utf8

/-!
# Faults of Directive Files

Everything that can go wrong while a directive file is read, merged or written, as causes; the
wording of each cause is in one function.

## Main definitions

* `Malformation`: Why the text of a directive file is refused.
* `Refusal`: Why something cannot be written.
* `DirectiveFault`: All faults, with the place where they arose.
* `DirectiveFault.message`: The wording.
-/

namespace AccessWidener

/-- The first word of every directive file. -/
def headerMagic : String := "accessWidener"

/-- Why the text of a directive file is refused. -/
inductive Malformation where
  | notUtf8 (fault : Utf8.Fault)
  | missingHeader
  | badHeader
  | badVersion (word : String)
  | unsupportedVersion (version : Nat)
  | unknownNamespace (word : String)
  | transitiveTooOld (version : Nat)
  | unknownAccess (word : String)
  | missingKind
  | unknownKind (word : String)
  | inapplicable (access : Access) (kind : TargetKind)
  | operandCount (kind : TargetKind) (got : Nat)
deriving DecidableEq, Repr

/-- How a word that is no namespace is reported. -/
def Namespace.unknownMessage (word : String) : String :=
  s!"unknown namespace '{word}'"

/-- The number of operands that follow the kind of a target. -/
def TargetKind.operands : TargetKind → Nat
  | .type => 1
  | .member _ => 3

/-- The wording of a malformation. -/
def Malformation.message : Malformation → String
  | notUtf8 fault => s!"not valid UTF-8: {fault.message}"
  | missingHeader => "missing header"
  | badHeader => s!"expected '{headerMagic} v<N> <namespace>' header"
  | badVersion word => s!"invalid version token '{word}'"
  | unsupportedVersion version => s!"unsupported version v{version}"
  | unknownNamespace word => Namespace.unknownMessage word
  | transitiveTooOld version => s!"transitive access requires v2, file declares v{version}"
  | unknownAccess word => s!"unknown access '{word}'"
  | missingKind => "missing target kind"
  | unknownKind word => s!"unknown target '{word}'"
  | inapplicable access kind => s!"{access.token} cannot be applied to a {kind.token}"
  | operandCount kind got =>
    let noun := if kind.operands = 1 then "operand" else "operands"
    s!"{kind.token} expects {kind.operands} {noun}, got {got}"

/-- Why something cannot be written. -/
inductive Refusal where
  | unsupportedVersion (version : Nat)
  | headerAlreadyWritten
  | directiveBeforeHeader
  | transitiveTooOld (target : Target)
deriving DecidableEq, Repr

/-- The wording of a refusal. -/
def Refusal.message : Refusal → String
  | unsupportedVersion version => s!"unsupported version v{version}"
  | headerAlreadyWritten => "header already written"
  | directiveBeforeHeader => "directive before header"
  | transitiveTooOld target => s!"transitive {target.display} needs v2"

/-- What can go wrong with directives. Lines are counted from one; line zero stands for the whole
    file. -/
inductive DirectiveFault where
  | malformed (line : Nat) (cause : Malformation)
  | namespaceMismatch (expected found : Namespace)
  | unresolved (origin : String) (target : Target)
  | unwritable (cause : Refusal)
deriving DecidableEq, Repr

namespace DirectiveFault

/-- How an unresolved symbol is spelled: the owner, and for a member a point, its name and its
    descriptor. -/
def symbol (target : Target) : String :=
  match target.signature? with
  | none => target.owner
  | some signature => s!"{target.owner}.{signature.name}{signature.descriptor}"

/-- The wording of a fault. -/
def message : DirectiveFault → String
  | malformed line cause => s!"Malformed directive file (line {line}): {cause.message}"
  | namespaceMismatch expected found =>
    s!"Namespace mismatch: expected {expected.token}, found {found.token}"
  | unresolved origin target =>
    s!"Unresolved {target.kind.token} symbol {symbol target} from {origin}"
  | unwritable cause => s!"Cannot write directive: {cause.message}"

end DirectiveFault

end AccessWidener
