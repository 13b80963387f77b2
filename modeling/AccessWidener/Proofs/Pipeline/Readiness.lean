import AccessWidener.Proofs.Pipeline.CacheKey
import AccessWidener.Proofs.Pipeline.Discovery
import AccessWidener.Proofs.Pipeline.Processor

/-!
# What Was Retained Can Be Merged and Applied

Discovery, merging and widening each read the retained files, or what became of them, for
themselves, and each has a reason of its own to refuse. Once a processor is there, some of these
reasons are gone for good. Its files were found to be well formed, so a merge that fails has another
reason than the wording of a line; and each of them exports something, so a merge that succeeds has
something to apply. That a processor has no files is then the only precondition that a caller can
break.

## Main definitions

* `Processor.Built`: A processor as callers can come by it.

## Theorems

* `malformed_not_mem_faults`: A well-formed file is not blamed for the wording of a line.
* `exporting_of_built`: The files of a processor are exporting.
* `merged_eq_error`: Why merging fails.
* `isEmpty_of_merged`: Exporting files leave something to apply.
* `built_usable`: What holds of every processor.
-/

namespace AccessWidener

/-! ### Well-formed files -/

section WellFormed

variable {symbols : Symbols} {source target : Namespace} {origin : String} {version : Nat}

/-- All that can be wrong with a line that parses is its symbol. -/
theorem lineFault?_ne_malformed {line : SignificantLine} {d : Directive}
    (hparse : parseDirective version line = .ok d) (number : Nat) (cause : Malformation) :
    lineFault? symbols origin version line ≠ some (.malformed number cause) := by
  intro h
  rw [lineFault?, hparse] at h
  simp only at h
  split at h <;> cases h

/-- A well-formed file may be refused for its namespace or a symbol, but not for its wording. -/
theorem malformed_not_mem_faults {file : DirectiveFile}
    (h : (readEvents file.content).fault = none) (number : Nat) (cause : Malformation) :
    .malformed number cause ∉ file.faults symbols source := by
  intro hmem
  unfold DirectiveFile.faults at hmem
  cases hdecode : decodeText file.content with
  | error fault =>
      rw [readEvents_of_badText hdecode] at h
      cases h
  | ok text =>
      cases hlines : significantLines text with
      | nil =>
          rw [readEvents_of_noLines hdecode hlines] at h
          cases h
      | cons first body =>
          cases hheader : parseHeader first with
          | error fault =>
              rw [readEvents_of_badHeader hdecode hlines hheader] at h
              cases h
          | ok header =>
              rw [(DirectiveFile.parts_of_header hdecode hlines hheader).2.1] at h
              simp only [hdecode, hlines, hheader, List.mem_append, List.mem_filterMap] at hmem
              -- What is left is the namespace, and the lines, which all parse.
              rcases hmem with hmem | ⟨line, hline, hfault⟩
              · split at hmem
                next => cases hmem
                next =>
                  rw [List.mem_singleton] at hmem
                  cases hmem
              · rcases parsed_of_readBody h with ⟨directives, hparsed, -⟩
                rcases hparsed.exists_directive hline with ⟨d, -, hparse⟩
                exact lineFault?_ne_malformed hparse number cause hfault

/-- A merge of well-formed files does not fail for the wording of one. -/
theorem mergeDirectives_ne_malformed {files : List DirectiveFile}
    (h : ∀ file ∈ files, (readEvents file.content).fault = none) (localSet : DirectiveSet)
    (number : Nat) (cause : Malformation) :
    mergeDirectives localSet files symbols source target ≠ .error (.malformed number cause) := by
  intro hmerge
  rw [mergeDirectives_eq, settle_eq_error_iff] at hmerge
  rcases List.head?_eq_some_iff.mp hmerge with ⟨rest, hfaults⟩
  have hmem : .malformed number cause ∈ mergeFaults localSet files symbols source target := by
    rw [hfaults]
    exact List.mem_cons_self
  rw [mergeFaults, List.mem_append, List.mem_flatMap] at hmem
  rcases hmem with ⟨file, hfile, hmem⟩ | hmem
  · exact malformed_not_mem_faults (h file hfile) number cause hmem
  · -- The project can only be in the wrong namespace.
    unfold DirectiveSet.localFaults at hmem
    split at hmem
    next => cases hmem
    next =>
      split at hmem
      next => cases hmem
      next =>
        rw [List.mem_singleton] at hmem
        cases hmem

end WellFormed

/-- A set that holds a level for some target is not empty. -/
theorem DirectiveSet.isEmpty_of_contains {set : DirectiveSet} {target : Target} {level : Access}
    (h : (set.grantOf target).access.contains level = true) : set.isEmpty = false := by
  have hget := get?_of_contains h
  rw [isEmpty, Std.ExtTreeMap.isEmpty_eq_false_iff]
  intro hgrants
  rw [get?, hgrants, Std.ExtTreeMap.getElem?_empty] at hget
  cases hget

/-- Widening an archive does not fail for a precondition. -/
theorem Widener.apply_ne_precondition {set : DirectiveSet} {widener : Widener}
    (hset : ofSet set = .ok widener) (tree left : FileTree) (path : Path) (broken : Precondition) :
    widener.apply tree path ≠ (left, .error (.precondition broken)) := by
  intro h
  have houtcome := outcome_apply hset tree path
  rw [h] at houtcome
  -- An error is of the file or of the first bad entry, and neither is a precondition.
  cases houtcome with
  | noArchive _ _ hfault =>
      rcases hfault with hfault | ⟨cause, hfault⟩ <;> cases hfault
  | stopped archive _ _ hfault =>
      rcases List.exists_of_findSome?_eq_some hfault with ⟨entry, -, hentry⟩
      rcases (entryFault?_eq_some_iff entry _).mp hentry with ⟨-, cause, -, hcause⟩
      cases hcause

namespace Processor

variable {ρ : Type}

/-- A processor as callers can come by it: made by discovery, and then given the directives of a
    project any number of times. -/
inductive Built : Processor ρ → Prop
  | create {tree : FileTree} {settings : Settings} {environment : Environment} {engine : Engine ρ}
      {processor : Processor ρ} (h : create tree settings environment engine = .ok processor) :
      Built processor
  | withLocal {processor : Processor ρ} (built : Built processor) (localSet : DirectiveSet) :
      Built (processor.withLocal localSet)

/-- The files of a processor are exporting. Only discovery puts files into one. -/
theorem exporting_of_built {processor : Processor ρ} (h : processor.Built) :
    ∀ file ∈ processor.files, file.Exporting := by
  induction h with
  | @create tree settings environment engine processor h =>
      intro file hfile
      unfold Processor.create at h
      split at h
      next => cases h
      next settings _ =>
        cases hdiscover : discover tree settings environment.artifacts with
        | error fault =>
            rw [hdiscover] at h
            cases h
        | ok files =>
            rw [hdiscover] at h
            cases h
            -- The files are the discovered ones, and discovery keeps exporting files only.
            exact exporting_of_mem_discover hdiscover hfile
  | withLocal built localSet ih => exact ih

variable [Resolver ρ]

/-- Why merging fails: the environment, the engine or its resolver, or the directives. -/
theorem merged_eq_error {tree : FileTree} {processor : Processor ρ} {fault : Fault}
    (h : processor.merged tree = .error fault) :
    (∃ cause, fault = .environment cause) ∨ (∃ cause, fault = .mapping cause) ∨
      ∃ symbols cause, fault = .directive cause ∧
        mergeDirectives processor.localSet processor.files symbols processor.settings.source
          processor.settings.target = .error cause := by
  have hending := ending_mergedWith processor tree
  rw [h] at hending
  generalize (processor.mergedWith tree).1 = left at hending
  -- One ending for each step that can fail; the last is the merge itself.
  cases hending with
  | unlisted _ => exact Or.inl ⟨_, rfl⟩
  | unbuilt _ _ => exact Or.inr (Or.inl ⟨_, rfl⟩)
  | unfinished _ _ _ => exact Or.inr (Or.inl ⟨_, rfl⟩)
  | unmerged _ hmerge _ =>
      unfold mergeUnder at hmerge
      split at hmerge
      next => cases hmerge
      next cause hcause =>
        cases hmerge
        exact Or.inr (Or.inr ⟨_, cause, rfl, hcause⟩)

/-- If every file exports something and there are files, a merge that succeeds has something to
    apply: exports are renamed, and what was renamed is in the merged set. -/
theorem isEmpty_of_merged {tree : FileTree} {processor : Processor ρ} {merged : DirectiveSet}
    (hexporting : ∀ file ∈ processor.files, file.Exporting) (hfiles : processor.isEmpty = false)
    (h : processor.merged tree = .ok merged) : merged.isEmpty = false := by
  rcases merged_eq_ok h with ⟨session, -, hfaults, rfl⟩
  -- One export of one file is enough.
  rcases List.exists_mem_of_ne_nil _ (List.isEmpty_eq_false_iff.mp hfiles) with ⟨file, hfile⟩
  rcases (hexporting file hfile).exports with ⟨d, hd, htransitive⟩
  rcases exists_rename?_of_mem hfaults hfile hd htransitive with ⟨renamed, hrename⟩
  have hlevel := (contains_access_mergeResult processor.localSet processor.files session.symbols
    processor.settings.target renamed d.access).mpr
      (Or.inr ⟨file, hfile, d, hd, htransitive, hrename, rfl⟩)
  exact DirectiveSet.isEmpty_of_contains hlevel

/-- A processor with files that are exporting does not fail for a precondition. -/
theorem process_ne_precondition {processor : Processor ρ}
    (hexporting : ∀ file ∈ processor.files, file.Exporting) (hfiles : processor.isEmpty = false)
    (tree left : FileTree) (path : Path) (broken : Precondition) :
    processor.process tree path ≠ (left, .error (.precondition broken)) := by
  intro h
  unfold process at h
  rw [hfiles, if_neg Bool.false_ne_true] at h
  split at h
  next fault hmerged =>
    cases h
    rcases merged_eq_error hmerged with ⟨_, hfault⟩ | ⟨_, hfault⟩ | ⟨_, _, hfault, -⟩ <;>
      cases hfault
  next merged hmerged =>
    -- The merged set is not empty, so there is a widener for it.
    rcases Widener.exists_ofSet (isEmpty_of_merged hexporting hfiles hmerged) with
      ⟨widener, hwidener⟩
    rw [hwidener] at h
    exact Widener.apply_ne_precondition hwidener tree left path broken h

/-- What holds of every processor. Each of its files is of version 2 or later, is well formed and
    exports something. So merging never fails for the wording of a file, and if there are files, a
    merge that succeeds has something to apply. Having no files is the one precondition that
    processing can break, it is then reported with the tree as it was, and it shows in the key and
    in the identity as well. That the merged set is empty is never reported. -/
theorem built_usable (processor : Processor ρ) (h : processor.Built) :
    (∀ file ∈ processor.files, 2 ≤ file.version ∧
      readVersion file.content = .ok file.version ∧ (readEvents file.content).fault = none ∧
        ∃ d ∈ file.directives, d.transitive = true) ∧
    (∀ tree line cause, processor.merged tree ≠ .error (.directive (.malformed line cause))) ∧
    (processor.isEmpty = false → ∀ tree merged, processor.merged tree = .ok merged →
      merged.isEmpty = false) ∧
    (∀ tree path, (∃ left broken,
      processor.process tree path = (left, .error (.precondition broken))) ↔
        processor.isEmpty = true) ∧
    (∀ tree path left broken, processor.process tree path = (left, .error (.precondition broken)) →
      left = tree ∧ broken = .processingNothing) ∧
    (processor.key? = none ↔ processor.isEmpty = true) ∧
    ((∃ fault, processor.identity = .error fault) ↔ processor.isEmpty = true) := by
  -- All that follows rests on this: discovery let only sound, exporting files through.
  have hexporting := exporting_of_built h
  have hkey : processor.key? = none ↔ processor.isEmpty = true := by
    rw [key?, cacheKey_eq_none_iff, isEmpty, List.isEmpty_iff]
  have hprocess : processor.isEmpty = true → ∀ tree path, processor.process tree path =
      (tree, .error (.precondition .processingNothing)) := by
    intro hempty tree path
    rw [process, if_pos hempty]
  refine ⟨fun file hfile => ?_, fun tree line cause hmerged => ?_, fun hfiles tree merged hmerged => ?_,
    fun tree path => ⟨?_, fun hempty => ⟨_, _, hprocess hempty tree path⟩⟩,
    fun tree path left broken hfault => ?_, hkey, ?_⟩
  · have hfile := hexporting file hfile
    exact ⟨hfile.version, hfile.declared, hfile.wellFormed, hfile.exports⟩
  · rcases merged_eq_error hmerged with ⟨_, hfault⟩ | ⟨_, hfault⟩ | ⟨_, _, hfault, hmerge⟩
    · cases hfault
    · cases hfault
    · cases hfault
      -- The files were read to their end once, so no line of theirs fails to parse now.
      exact mergeDirectives_ne_malformed (fun file hfile => (hexporting file hfile).wellFormed)
        _ line cause hmerge
  · exact isEmpty_of_merged hexporting hfiles hmerged
  · rintro ⟨left, broken, hfault⟩
    -- With a file there is a directive to carry out, so the set is never found empty.
    by_contra hfiles
    rw [Bool.not_eq_true] at hfiles
    exact process_ne_precondition hexporting hfiles tree left path broken hfault
  · by_cases hempty : processor.isEmpty = true
    · rw [hprocess hempty tree path] at hfault
      cases hfault
      exact ⟨rfl, rfl⟩
    · rw [Bool.not_eq_true] at hempty
      exact absurd hfault (process_ne_precondition hexporting hempty tree left path broken)
  · rw [← hkey, identity]
    cases processor.key? with
    | some key => simp only [reduceCtorEq, exists_false]
    | none => simp only [Except.error.injEq, exists_eq']

/-- A mod that exports a class. -/
def libraryTree : FileTree where
  nodes := [(["library.jar"], .archive [
    { name := "fabric.mod.json"
      contents := Utf8.encodeString
        "\x7b\"id\": \"library\", \"accessWidener\": \"library.accesswidener\"\x7d" },
    { name := "library.accesswidener", contents := oneExportFile.content }])]

/-- A processor for a project that depends on the mod. -/
def libraryProcessor : Processor IdentityResolver where
  settings := { source := .named, target := .intermediary }
  environment := { artifacts := [⟨"library.jar"⟩], namespaceJars := fun _ => .ok [] }
  engine := identityEngine none none
  files := [oneExportFile]

/-- The mod is found, the export is there after the merge, and no precondition is broken. -/
theorem built_usable_library :
    libraryProcessor.Built ∧
      (∃ merged, libraryProcessor.merged libraryTree = .ok merged ∧ merged.isEmpty = false) ∧
      ∀ tree path left broken,
        libraryProcessor.process tree path ≠ (left, .error (.precondition broken)) := by
  have hdiscover : discover libraryTree libraryProcessor.settings [⟨"library.jar"⟩] =
      .ok [oneExportFile] := by decide +kernel
  -- The discovery is evaluated once, and the processor is built from its result.
  have hcreate : create libraryTree libraryProcessor.settings libraryProcessor.environment
      libraryProcessor.engine = .ok libraryProcessor := by
    have hchecked : libraryProcessor.settings.checked = .ok libraryProcessor.settings := rfl
    simp only [create, hchecked]
    change (discover libraryTree libraryProcessor.settings [⟨"library.jar"⟩]).bind _ = _
    rw [hdiscover]
    rfl
  have hbuilt : libraryProcessor.Built := .create hcreate
  have hfiles : libraryProcessor.isEmpty = false := rfl
  have hmerges : (libraryProcessor.merged libraryTree).isOk = true := by decide +kernel
  rcases built_usable libraryProcessor hbuilt with ⟨-, -, hmerged, hprocess, -⟩
  refine ⟨hbuilt, ?_, fun tree path left broken h => ?_⟩
  · cases hresult : libraryProcessor.merged libraryTree with
    | error fault =>
        rw [hresult] at hmerges
        cases hmerges
    | ok merged => exact ⟨merged, rfl, hmerged hfiles libraryTree merged hresult⟩
  · have hempty := (hprocess tree path).mp ⟨left, broken, h⟩
    rw [hfiles] at hempty
    cases hempty

end Processor

end AccessWidener
