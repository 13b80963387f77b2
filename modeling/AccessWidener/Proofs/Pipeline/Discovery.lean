import AccessWidener.Proofs.Directive.Previews
import AccessWidener.Proofs.Except
import AccessWidener.Proofs.Merge.Faults

/-!
# What Discovery Retains

A file is retained if it exports something. This takes three looks at the same bytes: the version in
the header is read when the file is taken out of its archive, the version that was noted is compared
once more before the body is looked at, and the detector then reads the whole file, and with it the
header, again. What they agree on is put into one structure, `DirectiveFile.Exporting`, that says
nothing about how the looks were taken.

Discovery scans its candidates in parallel or one after the other. Either way the scans are those of
the single candidates, and a result is there only if all of them succeed (`mapM_eq_ok_iff`); sorting
and dropping what was not retained do not change what is in it.

## Main definitions

* `DirectiveFile.Exporting`: A well-formed file of version 2 or later that exports something.

## Theorems

* `containsTransitive_eq_true_iff`: What the detector finds.
* `scanAll_eq`: Scanning in parallel gives what scanning in sequence gives.
* `mem_discover_iff`: The files that discovery gives are those that scans retain.
* `exporting_of_mem_discover`: Each of them is exporting.
-/

namespace AccessWidener

/-- A well-formed file, of the version that was noted for it, that exports something. -/
structure DirectiveFile.Exporting (file : DirectiveFile) : Prop where
  version : 2 ≤ file.version
  declared : readVersion file.content = .ok file.version
  wellFormed : (readEvents file.content).fault = none
  exports : ∃ d ∈ file.directives, d.transitive = true

/-! ### One candidate -/

/-- A detector that finds something has read a version that knows transitive directives, and then
    the whole file without a fault. -/
theorem containsTransitive_eq_true_iff (content : Bytes) :
    containsTransitive content = .ok true ↔
      ∃ version, readVersion content = .ok version ∧ 2 ≤ version ∧
        (readEvents content).fault = none ∧
        ∃ d, .directive d ∈ (readEvents content).events ∧ d.transitive = true := by
  rw [containsTransitive_eq_ok_iff]
  constructor
  · rintro (⟨-, h⟩ | ⟨hversion, hfault, hany⟩)
    · cases h
    · rcases List.any_eq_true.mp hany with ⟨d, hd, htransitive⟩
      exact ⟨2, hversion, Nat.le_refl 2, hfault, d,
        (EventStream.mem_directives_iff _ d).mp hd, htransitive⟩
  · rintro ⟨version, hversion, hnew, hfault, d, hmem, htransitive⟩
    -- There is no later version than the second.
    have htwo : version = 2 := by
      rcases readVersion_cases content with h | h | ⟨fault, h⟩ <;> rw [h] at hversion <;>
        cases hversion
      · omega
      · rfl
    subst htwo
    refine Or.inr ⟨hversion, hfault, List.any_eq_true.mpr ⟨d, ?_, htransitive⟩⟩
    exact (EventStream.mem_directives_iff _ d).mpr hmem

/-- A retained file is the one that was found, and passed both checks. -/
theorem retain_eq_some_iff (file found : DirectiveFile) :
    retain file = .ok (some found) ↔
      found = file ∧ 2 ≤ file.version ∧ containsTransitive file.content = .ok true := by
  unfold retain
  by_cases hversion : 2 ≤ file.version
  · have hsupports : file.supportsTransitive = true := decide_eq_true hversion
    rw [hsupports]
    -- The version is high enough, so the content decides.
    cases containsTransitive file.content with
    | error fault => simp only [Bool.not_true, Bool.false_eq_true, if_false, reduceCtorEq, and_false]
    | ok exporting =>
        cases exporting <;>
          simp only [Bool.not_true, Bool.false_eq_true, if_false, if_true, Except.ok.injEq,
            reduceCtorEq, Option.some.injEq, hversion, and_true, and_false, eq_comm]
  · have hsupports : file.supportsTransitive = false := decide_eq_false hversion
    rw [hsupports]
    simp only [Bool.not_false, if_true, Except.ok.injEq, reduceCtorEq, hversion, false_and,
      and_false]

/-- The version noted for a file is the one that its header declares. -/
theorem readVersion_of_extractDirectiveFile {tree : FileTree} {path : Path}
    {platforms : List Platform} {file : DirectiveFile}
    (h : extractDirectiveFile tree path platforms = .ok (some file)) :
    readVersion file.content = .ok file.version := by
  unfold extractDirectiveFile at h
  split at h
  next archive _ =>
    cases hmetadata : selectMetadata archive path platforms with
    | error fault =>
        rw [hmetadata] at h
        cases h
    | ok selected =>
        cases selected with
        | none =>
            rw [hmetadata] at h
            cases h
        | some metadata =>
            rw [hmetadata] at h
            simp only [bind, Except.bind, declaredFile] at h
            split at h
            next => cases h
            next content _ =>
              split at h
              next => cases h
              next version hversion =>
                cases h
                -- The version the file carries is the one that was read from its content.
                exact hversion
  next => cases h

/-- A file that a scan retains is exporting. -/
theorem exporting_of_scanCandidate {tree : FileTree} {platforms : List Platform} {path : Path}
    {file : DirectiveFile} (h : scanCandidate tree platforms path = .ok (some file)) :
    file.Exporting := by
  unfold scanCandidate at h
  cases hextract : extractDirectiveFile tree path platforms with
  | error fault =>
      rw [hextract] at h
      cases h
  | ok extracted =>
      cases extracted with
      | none =>
          rw [hextract] at h
          cases h
      | some found =>
          rw [hextract] at h
          rcases (retain_eq_some_iff found file).mp h with ⟨rfl, hversion, hcontains⟩
          -- The version was noted with the file, and the detector has seen the rest.
          rcases (containsTransitive_eq_true_iff file.content).mp hcontains with
            ⟨_, -, -, hfault, d, hmem, htransitive⟩
          exact {
            version := hversion
            declared := readVersion_of_extractDirectiveFile hextract
            wellFormed := hfault
            exports := ⟨d, (file.mem_directives_iff d).mpr hmem, htransitive⟩ }

/-! ### All candidates -/

/-- Scanning in parallel gives what scanning in sequence gives. -/
theorem scanAll_eq (tree : FileTree) (settings : Settings) (paths : List Path) :
    scanAll tree settings paths = paths.mapM (scanCandidate tree settings.platforms) := by
  unfold scanAll
  split
  · exact List.mapM_map
  · rfl

/-- The files that discovery gives are those that the scans of the candidates retain. -/
theorem mem_discover_iff {tree : FileTree} {settings : Settings} {candidates : List Path}
    {files : List DirectiveFile} (h : discover tree settings candidates = .ok files)
    (file : DirectiveFile) :
    file ∈ files ↔ ∃ path ∈ distinctPaths candidates,
      scanCandidate tree settings.platforms path = .ok (some file) := by
  unfold discover at h
  rw [scanAll_eq] at h
  cases hscan : (distinctPaths candidates).mapM (scanCandidate tree settings.platforms) with
  | error fault =>
      rw [hscan] at h
      cases h
  | ok scanned =>
      rw [hscan] at h
      cases h
      -- A file is among the results exactly if some path was scanned with this result.
      have hscanned := (mapM_eq_ok_iff _ _ _).mp hscan
      have hmem : some file ∈ scanned ↔ Except.ok (some file) ∈
          (distinctPaths candidates).map (scanCandidate tree settings.platforms) := by
        rw [hscanned, List.mem_map]
        simp only [Except.ok.injEq, exists_eq_right]
      rw [List.mem_mergeSort, List.mem_filterMap]
      simp only [id_eq, exists_eq_right, hmem, List.mem_map]

/-- The files that discovery gives are exporting. -/
theorem exporting_of_mem_discover {tree : FileTree} {settings : Settings} {candidates : List Path}
    {files : List DirectiveFile} (h : discover tree settings candidates = .ok files)
    {file : DirectiveFile} (hfile : file ∈ files) : file.Exporting := by
  rcases (mem_discover_iff h file).mp hfile with ⟨path, -, hscan⟩
  exact exporting_of_scanCandidate hscan

end AccessWidener
