import AccessWidener.Proofs.Directive.Reading
import AccessWidener.Proofs.Merge.Exports
import AccessWidener.Proofs.Pipeline.Teardown
import AccessWidener.Proofs.Widening.Coverage

/-!
# What a Processor Achieves

From the files that discovery retained to the bytes of the archive, nothing that was exported gets
lost on the way. If a processor succeeds, every transitive directive of every file resolved, and the
archive gives its renamed target what the directive asks for; the same holds for every level that
the project asks for itself.

Each part of the way is described elsewhere. A merge that succeeds was without faults, so each
export has a new name and the merged set holds its level. The levels of a merged set apply to their
targets if those of the project do, because directives that were read do and renaming keeps the kind
of a target. A widener covers what its set asks for, as long as it applies.

## Theorems

* `merged_eq_ok`: Where a merged set comes from.
* `applicable_mergeResult`: A merged set is applicable if the set of the project is.
* `exists_rename?_of_mem`: After a merge that succeeds, every export has a new name.
* `process_covers`: The archive covers what was exported and what the project asks for.
-/

namespace AccessWidener

theorem Symbols.kind_of_rename? {symbols : Symbols} {target renamed : Target}
    (h : symbols.rename? target = some renamed) : renamed.kind = target.kind := by
  cases target with
  | type owner =>
      rcases Option.map_eq_some_iff.mp h with ⟨name, -, rfl⟩
      rfl
  | member kind ref =>
      rcases Option.bind_eq_some_iff.mp h with ⟨owner, -, h⟩
      rcases Option.bind_eq_some_iff.mp h with ⟨signature, -, h⟩
      cases h
      rfl

/-- Exported levels apply to the targets that they are exported for. -/
theorem appliesTo_of_exports {files : List DirectiveFile} {symbols : Symbols} {target : Target}
    {level : Access} (h : Exports files symbols target level) :
    level.appliesTo target.kind = true := by
  rcases h with ⟨file, -, d, hd, -, hrename, rfl⟩
  rw [Symbols.kind_of_rename? hrename]
  exact appliesTo_of_mem_events ((file.mem_directives_iff d).mp hd)

/-- A merged set is applicable if the set of the project is. -/
theorem applicable_mergeResult {localSet : DirectiveSet} (hlocal : localSet.Applicable)
    (files : List DirectiveFile) (symbols : Symbols) (ns : Namespace) :
    (mergeResult localSet files symbols ns).Applicable := by
  intro target level hlevel
  rcases (contains_access_mergeResult localSet files symbols ns target level).mp hlevel with
    hheld | hexports
  · exact hlocal target level hheld
  · exact appliesTo_of_exports hexports

/-- After a merge without faults, every export has a new name. -/
theorem exists_rename?_of_mem {localSet : DirectiveSet} {files : List DirectiveFile}
    {symbols : Symbols} {source target : Namespace}
    (h : mergeFaults localSet files symbols source target = []) {file : DirectiveFile}
    (hfile : file ∈ files) {d : Directive} (hd : d ∈ file.directives)
    (htransitive : d.transitive = true) : ∃ renamed, symbols.rename? d.target = some renamed := by
  cases hrename : symbols.rename? d.target with
  | some renamed => exact ⟨renamed, rfl⟩
  | none =>
      refine absurd ?_ ((mergeFaults_eq_nil_iff _ _ _ _ _).mp h)
      have hmiss := (symbols.rename?_eq_none_iff d.target).mp hrename
      exact Or.inl ⟨file, hfile, Or.inr (Or.inr ⟨d, hd, htransitive, hmiss⟩)⟩

namespace Processor

variable {ρ : Type} [Resolver ρ]

/-- A merged set comes from a merge without faults, under the lookups of a session that was
    opened. -/
theorem merged_eq_ok {tree : FileTree} {processor : Processor ρ} {merged : DirectiveSet}
    (h : processor.merged tree = .ok merged) :
    ∃ session, processor.openSession tree = .ok session ∧
      mergeFaults processor.localSet processor.files session.symbols processor.settings.source
        processor.settings.target = [] ∧
      mergeResult processor.localSet processor.files session.symbols processor.settings.target =
        merged := by
  have hending := ending_mergedWith processor tree
  rw [h] at hending
  generalize (processor.mergedWith tree).1 = left at hending
  -- Of all endings one alone is a success.
  cases hending with
  | @finished resolver left found hbuilds hmerge _ =>
      refine ⟨_, hbuilds.openSession, ?_⟩
      rw [mergeUnder, mergeDirectives_eq] at hmerge
      split at hmerge
      next result hsettle =>
        cases hmerge
        exact settle_eq_ok_iff.mp hsettle
      next => cases hmerge

/-- A processor that succeeds has merged a set, made a widener of it and widened the archive. -/
theorem process_eq_ok {tree left : FileTree} {processor : Processor ρ} {path : Path}
    {changed : Bool} (h : processor.process tree path = (left, .ok changed)) :
    ∃ merged widener, processor.merged tree = .ok merged ∧ Widener.ofSet merged = .ok widener ∧
      widener.apply tree path = (left, .ok changed) := by
  unfold process at h
  split at h
  next => cases h
  next =>
    split at h
    next => cases h
    next merged hmerged =>
      split at h
      next => cases h
      next widener hwidener => exact ⟨merged, widener, hmerged, hwidener, h⟩

/-- If a processor succeeds, every transitive directive of its files has a new target, and the
    archive gives each of them what it asks for. It also gives what the project asks for, provided
    that the set of the project was filled by reading directives. -/
theorem process_covers (tree left : FileTree) (processor : Processor ρ) (path : Path)
    (changed : Bool) (hlocal : processor.localSet.Collected)
    (h : processor.process tree path = (left, .ok changed)) :
    ∃ session archive, processor.openSession tree = .ok session ∧
      left.lookup path = .ok (.archive archive) ∧
      (∀ file ∈ processor.files, ∀ d ∈ file.directives, d.transitive = true →
        ∃ target, session.symbols.rename? d.target = some target ∧
          archive.Covers target d.access) ∧
      ∀ target level, (processor.localSet.grantOf target).access.contains level = true →
        archive.Covers target level := by
  rcases process_eq_ok h with ⟨merged, widener, hmerged, hwidener, happly⟩
  rcases merged_eq_ok hmerged with ⟨session, hsession, hfaults, rfl⟩
  rcases Widener.apply_eq_ok hwidener happly with ⟨archive, -, hleft, hparses⟩
  have happlicable := applicable_mergeResult (DirectiveSet.applicable_of_collected hlocal)
    processor.files session.symbols processor.settings.target
  -- Whoever asked, the merged set holds the level, and the widener covers what it holds.
  have hcovers : ∀ target level,
      (processor.localSet.grantOf target).access.contains level = true ∨
        Exports processor.files session.symbols target level →
      Archive.Covers (archive.map widener.rewrite) target level := by
    intro target level hasked
    have hlevel := (contains_access_mergeResult processor.localSet processor.files
      session.symbols processor.settings.target target level).mpr hasked
    exact Widener.covers_map_rewrite hwidener hlevel (happlicable target level hlevel) hparses
  refine ⟨session, archive.map widener.rewrite, hsession, hleft, ?_, ?_⟩
  · intro file hfile d hd htransitive
    -- The merge had no fault, so every exported target has a name.
    rcases exists_rename?_of_mem hfaults hfile hd htransitive with ⟨target, hrename⟩
    refine ⟨target, hrename, hcovers target d.access (Or.inr ?_)⟩
    exact ⟨file, hfile, d, hd, htransitive, hrename, rfl⟩
  · intro target level hheld
    exact hcovers target level (Or.inl hheld)

/-- A project with one archive that holds one class. -/
def oneClassTree : FileTree where
  nodes := [(["app.jar"],
    .archive [{ name := "Box.class", contents := Widener.oneMethodClass }])]

/-- A processor for one file, whose symbols keep their names. -/
def oneExportProcessor : Processor IdentityResolver where
  settings := { source := .named, target := .named }
  environment := { artifacts := [], namespaceJars := fun _ => .ok [] }
  engine := identityEngine none none
  files := [oneExportFile]

/-- The exported class is public in the archive that is left behind. -/
theorem process_covers_oneExport :
    ∃ left session archive,
      oneExportProcessor.process oneClassTree ⟨"app.jar"⟩ = (left, .ok true) ∧
      oneExportProcessor.openSession oneClassTree = .ok session ∧
      left.lookup ⟨"app.jar"⟩ = .ok (.archive archive) ∧
      ∃ target, session.symbols.rename? (.type "Box") = some target ∧
        archive.Covers target .accessible := by
  have hchanged : (oneExportProcessor.process oneClassTree ⟨"app.jar"⟩).2 = .ok true := by decide
  have hprocess : oneExportProcessor.process oneClassTree ⟨"app.jar"⟩ =
      ((oneExportProcessor.process oneClassTree ⟨"app.jar"⟩).1, .ok true) :=
    Prod.ext rfl hchanged
  have hdirective : ⟨.type "Box", .accessible, true⟩ ∈ oneExportFile.directives := by decide
  rcases process_covers _ _ _ _ _ .empty hprocess with
    ⟨session, archive, hsession, hleft, hfiles, -⟩
  have hcovers := hfiles oneExportFile (List.mem_singleton_self _) _ hdirective rfl
  exact ⟨_, session, archive, hprocess, hsession, hleft, hcovers⟩

end Processor

end AccessWidener
