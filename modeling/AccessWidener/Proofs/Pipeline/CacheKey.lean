import AccessWidener.Proofs.Merge.Exports
import AccessWidener.Proofs.Pipeline.KeyMaterial
import AccessWidener.Proofs.Widening.ClassFile

/-!
# Equal Keys Stand for Equal Work

A build cache that knows the key of a list of files takes the result of an earlier run for that of
this one. It may do so because the key leaves out nothing that a merge reads. What a merge makes of
a file depends on the content of the file, and on its origin only in the wording of a fault; how the
files are ordered, how often each is listed, where they came from and which version was noted for
them has no say in whether the merge succeeds, nor in what it gives.

This is a statement about two runs. It comes down to one fact about lists: whatever is asked of some
file's origin and content has the same answer in two lists with the same contributions
(`SameContributions.exists_iff`). Whether there is a fault is such a question, and so is whether a
level of a target is exported.

## Main definitions

* `SameContributions`: Two lists of files hold the same origins with the same contents.

## Theorems

* `cacheKey_eq_none_iff`: There is a key exactly if there are files.
* `cacheKey_congr`: Lists with the same contributions have the same key.
* `mergeFaults_eq_nil_congr`, `mergeResult_of_sameContributions`: They fail to merge together, and
  merge to the same set.
* `sameContributions_equal_work`: The effects are the same.
-/

namespace AccessWidener

/-- What a file contributes to a key: its origin and its content. -/
def DirectiveFile.contribution (file : DirectiveFile) : String × Bytes :=
  (file.origin, file.content)

/-- Two lists of files have the same set of contributions. -/
def SameContributions (files files' : List DirectiveFile) : Prop :=
  ∀ pair, pair ∈ files.map DirectiveFile.contribution ↔
    pair ∈ files'.map DirectiveFile.contribution

/-! ### Keys -/

/-- There is a key exactly if there are files. -/
theorem cacheKey_eq_none_iff (files : List DirectiveFile) : cacheKey files = none ↔ files = [] :=
  cacheKeyWith_eq_none_iff sha256 files

namespace SameContributions

variable {files files' : List DirectiveFile}

/-- A question about the origin and the content of some file has one answer. -/
theorem exists_iff (h : SameContributions files files') (property : String → Bytes → Prop) :
    (∃ file ∈ files, property file.origin file.content) ↔
      ∃ file ∈ files', property file.origin file.content := by
  -- The property is one of the contribution, so the files may be left behind.
  have hpairs : ∀ list : List DirectiveFile,
      (∃ file ∈ list, property file.origin file.content) ↔
        ∃ pair ∈ list.map DirectiveFile.contribution, property pair.1 pair.2 := by
    intro list
    constructor
    · rintro ⟨file, hfile, hproperty⟩
      exact ⟨file.contribution, List.mem_map_of_mem hfile, hproperty⟩
    · rintro ⟨pair, hpair, hproperty⟩
      rcases List.mem_map.mp hpair with ⟨file, hfile, rfl⟩
      exact ⟨file, hfile, hproperty⟩
  rw [hpairs, hpairs]
  simp only [h _]

theorem contributors_congr (h : SameContributions files files') (digest : Bytes → Bytes) :
    contributors digest files = contributors digest files' := by
  rw [contributors_eq_iff]
  exact fun origin value =>
    h.exists_iff (fun origin' content => origin' = origin ∧ digest content = value)

/-- Lists with the same contributions have the same key. -/
theorem cacheKey_congr (h : SameContributions files files') : cacheKey files = cacheKey files' := by
  rw [cacheKey, cacheKey, cacheKeyWith, cacheKeyWith, keyMaterial, keyMaterial,
    h.contributors_congr]

/-! ### Merges -/

/-- Either both lists can be merged or neither can, although the faults may be different ones. -/
theorem mergeFaults_eq_nil_congr (h : SameContributions files files') (localSet : DirectiveSet)
    (symbols : Symbols) (source target : Namespace) :
    mergeFaults localSet files symbols source target = [] ↔
      mergeFaults localSet files' symbols source target = [] := by
  -- Whether a file can be merged is told by its content.
  have hobjectionable : (∃ file ∈ files, file.Objectionable symbols source) ↔
      ∃ file ∈ files', file.Objectionable symbols source :=
    h.exists_iff (fun _ content => (readEvents content).fault ≠ none ∨
      (∃ header, readHeader content = .ok header ∧ header.ns ≠ source) ∨
      ∃ d ∈ (readEvents content).events.filterMap Event.directive?,
        d.transitive = true ∧ symbols.Misses d.target)
  rw [mergeFaults_eq_nil_iff, mergeFaults_eq_nil_iff, hobjectionable]

/-- What is exported is told by the contents as well. -/
theorem exports_iff (h : SameContributions files files') (symbols : Symbols) (target : Target)
    (level : Access) : Exports files symbols target level ↔ Exports files' symbols target level :=
  h.exists_iff (fun _ content => ∃ d ∈ (readEvents content).events.filterMap Event.directive?,
    d.transitive = true ∧ symbols.rename? d.target = some target ∧ d.access = level)

theorem mergeResult_eq (h : SameContributions files files') (localSet : DirectiveSet)
    (symbols : Symbols) (target : Namespace) :
    mergeResult localSet files symbols target = mergeResult localSet files' symbols target :=
  mergeResult_congr (h.exports_iff symbols) localSet target

/-- A merge that succeeds for one list succeeds for the other, with the same set. -/
theorem mergeDirectives_eq_ok_iff (h : SameContributions files files') (localSet : DirectiveSet)
    (symbols : Symbols) (source target : Namespace) (merged : DirectiveSet) :
    mergeDirectives localSet files symbols source target = .ok merged ↔
      mergeDirectives localSet files' symbols source target = .ok merged := by
  rw [mergeDirectives_eq, mergeDirectives_eq, settle_eq_ok_iff, settle_eq_ok_iff,
    h.mergeFaults_eq_nil_congr, h.mergeResult_eq]

end SameContributions

/-- Lists of files with the same contributions have the same key and stand for the same work.
    Whichever lookups, project and namespaces are given, either both lists fail to merge or both
    merge, to one and the same set. Wideners of the two sets, which may take the members of their
    plans in different orders, leave the same of every class file and of every archive, and say the
    same about it. -/
theorem sameContributions_equal_work (files files' : List DirectiveFile)
    (h : SameContributions files files') :
    cacheKey files = cacheKey files' ∧
    ∀ (localSet : DirectiveSet) (symbols : Symbols) (source target : Namespace),
      ((∃ fault fault', mergeDirectives localSet files symbols source target = .error fault ∧
          mergeDirectives localSet files' symbols source target = .error fault') ∨
        ∃ merged, mergeDirectives localSet files symbols source target = .ok merged ∧
          mergeDirectives localSet files' symbols source target = .ok merged) ∧
      ∀ merged merged' widener widener',
        mergeDirectives localSet files symbols source target = .ok merged →
        mergeDirectives localSet files' symbols source target = .ok merged' →
        Widener.ofSet merged = .ok widener → Widener.ofSet merged' = .ok widener' →
          (∀ bytes order order', widener.patchClass bytes order = widener'.patchClass bytes order') ∧
          ∀ tree path, widener.apply tree path = widener'.apply tree path := by
  refine ⟨h.cacheKey_congr, fun localSet symbols source target => ⟨?_, ?_⟩⟩
  · -- A merge that succeeds for one list succeeds for the other, so failing agrees as well.
    have hsame := h.mergeDirectives_eq_ok_iff localSet symbols source target
    cases hmerge : mergeDirectives localSet files symbols source target with
    | ok merged => exact Or.inr ⟨merged, rfl, (hsame merged).mp hmerge⟩
    | error fault =>
        cases hmerge' : mergeDirectives localSet files' symbols source target with
        | error fault' => exact Or.inl ⟨fault, fault', rfl, rfl⟩
        | ok merged =>
            rw [(hsame merged).mpr hmerge'] at hmerge
            cases hmerge
  · intro merged merged' widener widener' hmerge hmerge' hwidener hwidener'
    rw [h.mergeDirectives_eq_ok_iff] at hmerge
    -- The merged sets are equal, hence so are the wideners made of them.
    have hmerged : merged = merged' := Except.ok.inj (hmerge.symm.trans hmerge')
    subst hmerged
    have hsame : widener = widener' := Except.ok.inj (hwidener.symm.trans hwidener')
    subst hsame
    exact ⟨Widener.patchClass_order hwidener, fun _ _ => rfl⟩

/-- A second file, with an export of its own. -/
def otherExportFile : DirectiveFile where
  origin := "extension"
  source := ⟨"extension.jar"⟩
  content := Utf8.encodeString "accessWidener v2 named
transitive-extendable class Lid
"
  version := 2

/-- The two files, one of them once more in front, from another place and with another version. -/
def repeatedFiles : List DirectiveFile :=
  [{ otherExportFile with source := ⟨"copy.jar"⟩, version := 7 }, oneExportFile, otherExportFile]

/-- Listing a file twice gives the same key and the same set. -/
theorem sameContributions_equal_work_repeated :
    SameContributions [oneExportFile, otherExportFile] repeatedFiles ∧
      cacheKey [oneExportFile, otherExportFile] = cacheKey repeatedFiles ∧
      ∃ merged,
        mergeDirectives .empty [oneExportFile, otherExportFile] .identity .named .named =
          .ok merged ∧
        mergeDirectives .empty repeatedFiles .identity .named .named = .ok merged := by
  have hsame : SameContributions [oneExportFile, otherExportFile] repeatedFiles := by
    intro pair
    simp only [repeatedFiles, List.map_cons, List.map_nil, List.mem_cons, List.not_mem_nil,
      DirectiveFile.contribution, or_false]
    constructor
    · rintro (h | h)
      · exact Or.inr (Or.inl h)
      · exact Or.inl h
    · rintro (h | h | h)
      · exact Or.inr h
      · exact Or.inl h
      · exact Or.inr h
  have hmerges : mergeFaults .empty [oneExportFile, otherExportFile] .identity .named .named =
      [] := by decide
  rcases sameContributions_equal_work _ _ hsame with ⟨hkey, heffects⟩
  refine ⟨hsame, hkey, ?_⟩
  -- The merge of the shorter list has no fault, which leaves the second case.
  rcases (heffects .empty .identity .named .named).1 with ⟨fault, -, hfault, -⟩ | hmerged
  · rw [mergeDirectives_eq, hmerges] at hfault
    cases hfault
  · exact hmerged

end AccessWidener
