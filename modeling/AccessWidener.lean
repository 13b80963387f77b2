import AccessWidener.ClassFile.Blueprint
import AccessWidener.Directive.Writer
import AccessWidener.Main
import AccessWidener.Proofs.ClassFile.Lenses
import AccessWidener.Proofs.ClassFile.Slots
import AccessWidener.Proofs.ClassFile.Truncation
import AccessWidener.Proofs.ClassPath.Resolution
import AccessWidener.Proofs.ClassPath.Walk
import AccessWidener.Proofs.Command.Overrides
import AccessWidener.Proofs.Directive.Canonical
import AccessWidener.Proofs.Directive.Exported
import AccessWidener.Proofs.Directive.FirstFault
import AccessWidener.Proofs.Directive.Previews
import AccessWidener.Proofs.Directive.Writing
import AccessWidener.Proofs.Mapping.Projection
import AccessWidener.Proofs.Mapping.TypeForm
import AccessWidener.Proofs.Pipeline.Candidates
import AccessWidener.Proofs.Pipeline.Readiness
import AccessWidener.Proofs.Widening.History
import AccessWidener.Proofs.Widening.Interfaces
import AccessWidener.Proofs.Widening.Names
import AccessWidener.Proofs.Widening.Repetition
import AccessWidener.Proofs.Widening.Skipping
