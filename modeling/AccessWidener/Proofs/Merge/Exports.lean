import AccessWidener.Proofs.Merge.Faults

/-!
# What a Merge Holds

A merge that succeeds is the union of what was exported and of what the project asks for itself. For
each target it holds the levels of the project and those of every transitive directive that is
renamed to the target, however many files or lines they come from and however many targets were
renamed to one.

Nothing else is in it, so a merge is determined by which directives are exported. The order of files
and lines, repetitions, and directives that are private to a file leave no trace.

## Main definitions

* `Exports`: Some file exports a level of a target.

## Theorems

* `contains_mergeFor`: The levels that a list of grants holds for a target.
* `contains_access_mergeResult`, `contains_transitive_mergeResult`, `get?_mergeResult_eq_none_iff`:
  What the result of a merge holds.
* `mergeResult_congr`: The result is determined by what is exported.
* `mergeDirectives_exact`: A merge that succeeds holds what was exported and what the project had.
-/

namespace AccessWidener

/-- Some file exports a level of a target: one of its transitive directives asks for the level, and
    is renamed to the target. -/
def Exports (files : List DirectiveFile) (symbols : Symbols) (target : Target) (level : Access) :
    Prop :=
  ∃ file ∈ files, ∃ d ∈ file.directives,
    d.transitive = true ∧ symbols.rename? d.target = some target ∧ d.access = level

namespace DirectiveSet

/-- The levels that a list of grants holds for a target, read off either part of the grants. -/
theorem contains_mergeFor {part : Grant → AccessSet} (hempty : part {} = .empty)
    (hmerge : ∀ a b : Grant, part (a.merge b) = (part a).union (part b)) (target : Target)
    (entries : List (Target × Grant)) (level : Access) :
    (part (mergeFor target entries)).contains level = true ↔
      ∃ entry ∈ entries, entry.1 = target ∧ (part entry.2).contains level = true := by
  induction entries with
  | nil =>
      simp only [mergeFor, List.foldr_nil, hempty, AccessSet.contains_empty, Bool.false_eq_true,
        List.not_mem_nil, false_and, exists_false]
  | cons entry rest ih =>
      simp only [List.mem_cons, exists_eq_or_imp]
      simp only [mergeFor, List.foldr_cons] at ih ⊢
      -- Entries of other targets are passed over, those of this one are joined.
      by_cases h : entry.1 = target
      · rw [if_pos h, hmerge, AccessSet.contains_union, Bool.or_eq_true, ih]
        simp only [h, true_and]
      · rw [if_neg h, ih]
        simp only [h, false_and, false_or]

/-- A request as an entry of a set. -/
def entryOf (d : Directive) : Target × Grant :=
  (d.target, .ofRequest d.access d.transitive)

theorem foldl_insert_eq (directives : List Directive) (set : DirectiveSet) :
    directives.foldl insert set =
      (directives.map entryOf).foldl (fun held entry => held.insertGrant entry.1 entry.2) set := by
  rw [List.foldl_map]
  rfl

end DirectiveSet

/-! ### The result of a merge -/

theorem exported?_eq_some_iff (symbols : Symbols) (d renamed : Directive) :
    d.exported? symbols = some renamed ↔
      d.transitive = true ∧ symbols.rename? d.target = some renamed.target ∧
        d.access = renamed.access ∧ renamed.transitive = true := by
  rcases d with ⟨target, access, transitive⟩
  rcases renamed with ⟨target', access', transitive'⟩
  simp only [Directive.exported?]
  by_cases h : transitive = true
  · rw [if_pos h]
    simp only [Option.map_eq_some_iff, Directive.mk.injEq, h, true_and]
    constructor
    · rintro ⟨found, hrename, rfl, rfl, rfl⟩
      exact ⟨hrename, rfl, rfl⟩
    · rintro ⟨hrename, rfl, rfl⟩
      exact ⟨target', hrename, rfl, rfl, rfl⟩
  · rw [if_neg h]
    -- A private directive is not exported, whatever its target.
    exact iff_of_false (Option.some_ne_none _).symm (fun hall => h hall.1)

/-- The entries that the exports of files make. -/
def exportEntries (files : List DirectiveFile) (symbols : Symbols) : List (Target × Grant) :=
  (files.flatMap (DirectiveFile.exports symbols)).map DirectiveSet.entryOf

theorem mem_exportEntries_iff (files : List DirectiveFile) (symbols : Symbols)
    (entry : Target × Grant) :
    entry ∈ exportEntries files symbols ↔
      ∃ level, Exports files symbols entry.1 level ∧ entry.2 = .ofRequest level true := by
  simp only [exportEntries, List.mem_map, List.mem_flatMap, DirectiveFile.exports,
    List.mem_filterMap, exported?_eq_some_iff]
  constructor
  · rintro ⟨renamed, ⟨file, hfile, d, hd, htransitive, hrename, haccess, hmark⟩, rfl⟩
    refine ⟨renamed.access, ⟨file, hfile, d, hd, htransitive, hrename, haccess⟩, ?_⟩
    rw [DirectiveSet.entryOf, hmark]
  · rintro ⟨level, ⟨file, hfile, d, hd, htransitive, hrename, haccess⟩, hgrant⟩
    refine ⟨⟨entry.1, level, true⟩, ⟨file, hfile, d, hd, htransitive, hrename, haccess, rfl⟩, ?_⟩
    rw [DirectiveSet.entryOf, ← hgrant]

/-- Exported levels are granted and exported alike. -/
theorem contains_mergeFor_exportEntries {part : Grant → AccessSet} (hempty : part {} = .empty)
    (hmerge : ∀ a b : Grant, part (a.merge b) = (part a).union (part b))
    (hrequest : ∀ level, part (.ofRequest level true) = .singleton level)
    (files : List DirectiveFile) (symbols : Symbols) (target : Target) (level : Access) :
    (part (DirectiveSet.mergeFor target (exportEntries files symbols))).contains level = true ↔
      Exports files symbols target level := by
  rw [DirectiveSet.contains_mergeFor hempty hmerge]
  constructor
  · rintro ⟨entry, hmem, rfl, hlevel⟩
    rcases (mem_exportEntries_iff files symbols entry).mp hmem with ⟨asked, hexports, hgrant⟩
    rw [hgrant, hrequest, AccessSet.contains_singleton, decide_eq_true_eq] at hlevel
    rwa [hlevel]
  · -- An exported level has an entry of its own.
    intro hexports
    refine ⟨(target, .ofRequest level true), ?_, rfl, ?_⟩
    · exact (mem_exportEntries_iff files symbols _).mpr ⟨level, hexports, rfl⟩
    · rw [hrequest, AccessSet.contains_singleton, decide_eq_true_eq]

section Result

variable (localSet : DirectiveSet) (files : List DirectiveFile) (symbols : Symbols)
variable (ns : Namespace) (target : Target)

theorem mergeResult_eq : mergeResult localSet files symbols ns =
    (exportEntries files symbols ++ localSet.toList).foldl
      (fun held entry => held.insertGrant entry.1 entry.2) (.inNamespace ns) := by
  rw [mergeResult, DirectiveSet.foldl_insert_eq, List.foldl_append, exportEntries]

theorem grantOf_mergeResult : (mergeResult localSet files symbols ns).grantOf target =
    (DirectiveSet.mergeFor target (exportEntries files symbols)).merge
      (localSet.grantOf target) := by
  have hstart : (DirectiveSet.inNamespace ns).grantOf target = {} :=
    DirectiveSet.grantOf_eq_empty Std.ExtTreeMap.getElem?_empty
  rw [mergeResult_eq, List.foldl_append, DirectiveSet.grantOf_foldl_insertGrant,
    DirectiveSet.grantOf_foldl_insertGrant, hstart, Grant.empty_merge,
    DirectiveSet.mergeFor_toList]

theorem ns_mergeResult : (mergeResult localSet files symbols ns).ns = some ns := by
  rw [mergeResult_eq, DirectiveSet.ns_foldl_insertGrant]
  rfl

theorem contains_access_mergeResult (level : Access) :
    ((mergeResult localSet files symbols ns).grantOf target).access.contains level = true ↔
      (localSet.grantOf target).access.contains level = true ∨
        Exports files symbols target level := by
  rw [grantOf_mergeResult, Grant.merge, AccessSet.contains_union, Bool.or_eq_true,
    contains_mergeFor_exportEntries rfl (fun _ _ => rfl) (fun _ => rfl), or_comm]

theorem contains_transitive_mergeResult (level : Access) :
    ((mergeResult localSet files symbols ns).grantOf target).transitive.contains level = true ↔
      (localSet.grantOf target).transitive.contains level = true ∨
        Exports files symbols target level := by
  rw [grantOf_mergeResult, Grant.merge, AccessSet.contains_union, Bool.or_eq_true,
    contains_mergeFor_exportEntries rfl (fun _ _ => rfl) (fun _ => rfl), or_comm]

theorem get?_mergeResult_eq_none_iff :
    (mergeResult localSet files symbols ns).get? target = none ↔
      localSet.get? target = none ∧ ∀ level, ¬Exports files symbols target level := by
  have hstart : (DirectiveSet.inNamespace ns).get? target = none :=
    Std.ExtTreeMap.getElem?_empty
  -- A target is held exactly if some grant that goes in is one for it.
  rw [mergeResult_eq, DirectiveSet.get?_foldl_insertGrant_eq_none_iff]
  simp only [hstart, true_and, List.mem_append]
  constructor
  · intro h
    refine ⟨?_, fun level hexports => ?_⟩
    · cases hget : localSet.get? target with
      | none => rfl
      | some grant =>
          exact absurd rfl (h (target, grant)
            (Or.inr ((DirectiveSet.mem_toList_iff localSet target grant).mpr hget)))
    · exact absurd rfl (h (target, .ofRequest level true)
        (Or.inl ((mem_exportEntries_iff files symbols _).mpr ⟨level, hexports, rfl⟩)))
  · rintro ⟨hlocal, hfree⟩ entry (hmem | hmem) heq
    · rcases (mem_exportEntries_iff files symbols entry).mp hmem with ⟨level, hexports, -⟩
      exact hfree level (heq ▸ hexports)
    · rw [← heq, (DirectiveSet.mem_toList_iff localSet entry.1 entry.2).mp hmem] at hlocal
      cases hlocal

end Result

/-- The result of a merge is determined by what is exported. -/
theorem mergeResult_congr {files files' : List DirectiveFile} {symbols : Symbols}
    (h : ∀ target level, Exports files' symbols target level ↔ Exports files symbols target level)
    (localSet : DirectiveSet) (ns : Namespace) :
    mergeResult localSet files' symbols ns = mergeResult localSet files symbols ns := by
  refine DirectiveSet.ext_grantOf ?_ (fun target => ?_) (fun target => ?_)
  · rw [ns_mergeResult, ns_mergeResult]
  · simp only [get?_mergeResult_eq_none_iff, h]
  · -- Both parts of a grant are known level by level.
    refine Grant.ext_contains (fun level => ?_) (fun level => ?_)
    · rw [contains_access_mergeResult, contains_access_mergeResult, h]
    · rw [contains_transitive_mergeResult, contains_transitive_mergeResult, h]

/-- A file that exports one class and keeps another to itself. -/
def oneExportFile : DirectiveFile where
  origin := "library"
  source := ⟨"library.jar"⟩
  content := Utf8.encodeString "accessWidener v2 named
transitive-accessible class Box
accessible class Lid
"
  version := 2

end AccessWidener
