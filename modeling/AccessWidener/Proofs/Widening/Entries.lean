import AccessWidener.Proofs.Widening.ClassFile

/-!
# Widening the Entries of an Archive

Each entry of an archive is judged by itself. It stops the widening if it is concerned and is not a
class file. Otherwise it is given contents, which differ from those it has or do not: those of the
widened class file, if it is concerned, and its own if it is not.

A widener goes through an archive twice, and notes contents by position in between. What one entry
adds to the notes is described by `addPatch_of_fault` and `addPatch_of_noFault`. The induction over
the archive carries that the positions already passed hold what was noted, while no later position
holds anything yet; that is why a note is never overwritten and the two passes stay aligned.

## Main definitions

* `Widener.rewrite`: An entry with its class file widened, if it is concerned.
* `Widener.entryFault?`: What stops a widening at an entry.
* `Widener.change?`: The contents that an entry is given, if they are not those it has.
* `Widener.Concerned`, `Widener.Rewritten`: Entries whose class file may have to change, and what
  becomes of an entry.

## Theorems

* `rewritten_rewrite`: Rewriting is what becomes of an entry.
* `patches_of_fault`, `exists_patches`: What the first pass finds in an archive.
* `patched_eq_map`, `isEmpty_patches_iff`: What the second pass makes of it.
-/

namespace AccessWidener

namespace Widener

variable {set : DirectiveSet} {widener : Widener}

/-- An entry with its class file widened, if the entry is concerned. -/
def rewrite (widener : Widener) (entry : ArchiveEntry) : ArchiveEntry :=
  if widener.concerns entry then
    { entry with contents := (widener.patchClass entry.contents).1 }
  else entry

/-- What stops a widening at an entry: the entry is concerned, but not a class file. -/
def entryFault? (widener : Widener) (entry : ArchiveEntry) : Option Fault :=
  if widener.concerns entry then
    match ClassLayout.parse entry.contents with
    | .error fault => some (.classFile entry.name fault)
    | .ok _ => none
  else none

/-- The contents that an entry is given, if they are not those it has. -/
def change? (widener : Widener) (entry : ArchiveEntry) : Option Bytes :=
  if (widener.rewrite entry).contents = entry.contents then none
  else some (widener.rewrite entry).contents

/-- The class file of an entry may have to change: the entry is no directory, and its path is that
    of a class that is touched. -/
def Concerned (widener : Widener) (entry : ArchiveEntry) : Prop :=
  entry.isDirectory = false ∧
    ∃ name, classAtPath? entry.name = some name ∧ widener.touches name = true

theorem concerns_iff (entry : ArchiveEntry) :
    widener.concerns entry = true ↔ widener.Concerned entry := by
  simp only [concerns, Concerned, Bool.and_eq_true, Bool.not_eq_true', Option.any_eq_true]

/-- What becomes of an entry: its name and attributes stay, its contents are those that widening
    its class file leaves, if the class file may have to change, and stay as well if not. -/
structure Rewritten (widener : Widener) (entry left : ArchiveEntry) : Prop where
  name : left.name = entry.name
  stored : left.stored = entry.stored
  mode : left.mode = entry.mode
  modified : left.modified = entry.modified
  widened : widener.Concerned entry → ∀ order, ∃ changed,
    widener.patchClass entry.contents order = (left.contents, .ok changed)
  kept : ¬widener.Concerned entry → left.contents = entry.contents

/-! ### One entry -/

theorem rewrite_of_not_concerns {entry : ArchiveEntry} (h : widener.concerns entry = false) :
    widener.rewrite entry = entry := by
  rw [rewrite, h, if_neg Bool.false_ne_true]

/-- A concerned entry that is a class file gets the bytes that widening leaves, in any order. -/
theorem rewrite_of_parse (hset : ofSet set = .ok widener) {entry : ArchiveEntry}
    (hconcerns : widener.concerns entry = true) {layout : ClassLayout}
    (hparse : ClassLayout.parse entry.contents = .ok layout) (order : MemberOrder) :
    widener.patchClass entry.contents order = ((widener.rewrite entry).contents,
      .ok (decide ((widener.rewrite entry).contents ≠ entry.contents))) := by
  rcases patchClass_of_parse hset hparse with ⟨patched, hpatched, -⟩
  have hrewrite : (widener.rewrite entry).contents = patched := by
    rw [rewrite, hconcerns, if_pos rfl, hpatched]
  rw [hrewrite, hpatched]

theorem entryFault?_eq_some_iff (entry : ArchiveEntry) (fault : Fault) :
    widener.entryFault? entry = some fault ↔
      widener.concerns entry = true ∧ ∃ cause, ClassLayout.parse entry.contents = .error cause ∧
        fault = .classFile entry.name cause := by
  unfold entryFault?
  by_cases hconcerns : widener.concerns entry = true
  · rw [if_pos hconcerns]
    cases hparse : ClassLayout.parse entry.contents with
    | error cause =>
        simp only [hconcerns, true_and, Option.some.injEq, Except.error.injEq, exists_eq_left',
          eq_comm]
    | ok layout => simp only [reduceCtorEq, false_and, exists_false, and_false]
  · rw [if_neg hconcerns]
    exact iff_of_false (Option.some_ne_none _).symm (fun h => hconcerns h.1)

theorem entryFault?_eq_none_iff (entry : ArchiveEntry) :
    widener.entryFault? entry = none ↔
      (widener.concerns entry = true → ∃ layout, ClassLayout.parse entry.contents = .ok layout) := by
  unfold entryFault?
  by_cases hconcerns : widener.concerns entry = true
  · rw [if_pos hconcerns]
    cases ClassLayout.parse entry.contents with
    | error cause => simp only [reduceCtorEq, exists_false, hconcerns, imp_false, not_true_eq_false]
    | ok layout => simp only [Except.ok.injEq, exists_eq', implies_true]
  · rw [if_neg hconcerns]
    exact iff_of_true rfl (fun h => absurd h hconcerns)

theorem rewrite_eq (entry : ArchiveEntry) :
    widener.rewrite entry =
      { entry with contents := (widener.change? entry).getD entry.contents } := by
  have hcontents : (widener.change? entry).getD entry.contents =
      (widener.rewrite entry).contents := by
    unfold change?
    split
    next hsame => exact hsame.symm
    next => rfl
  rw [hcontents, rewrite]
  split <;> rfl

/-- Rewriting keeps what has to be kept and widens what may have to change. -/
theorem rewritten_rewrite (hset : ofSet set = .ok widener) {entry : ArchiveEntry}
    (h : widener.entryFault? entry = none) :
    widener.Rewritten entry (widener.rewrite entry) := by
  have hattributes : widener.rewrite entry =
      { entry with contents := (widener.change? entry).getD entry.contents } := rewrite_eq entry
  refine ⟨?_, ?_, ?_, ?_, fun hconcerned order => ?_, fun hnot => ?_⟩
  · rw [hattributes]
  · rw [hattributes]
  · rw [hattributes]
  · rw [hattributes]
  · -- A concerned entry parses, and then the widener leaves one result under every order.
    have hconcerns := (concerns_iff entry).mpr hconcerned
    rcases (entryFault?_eq_none_iff entry).mp h hconcerns with ⟨layout, hparse⟩
    exact ⟨_, rewrite_of_parse hset hconcerns hparse order⟩
  · rw [← concerns_iff, Bool.not_eq_true] at hnot
    rw [rewrite_of_not_concerns hnot]

theorem addPatch_of_fault {entry : ArchiveEntry} {fault : Fault}
    (h : widener.entryFault? entry = some fault) (held : Std.ExtTreeMap Nat Bytes) (i : Nat) :
    widener.addPatch held (entry, i) = .error fault := by
  rcases (entryFault?_eq_some_iff entry fault).mp h with ⟨hconcerns, cause, hparse, rfl⟩
  simp only [addPatch, hconcerns, if_true, patchClass_of_fault hparse]

/-- An entry that does not stop the widening adds the contents it is given, if these are not the
    ones it has, and leaves all other positions alone. -/
theorem addPatch_of_noFault (hset : ofSet set = .ok widener) {entry : ArchiveEntry}
    (h : widener.entryFault? entry = none) (held : Std.ExtTreeMap Nat Bytes) (i : Nat) :
    ∃ next, widener.addPatch held (entry, i) = .ok next ∧
      next[i]? = (widener.change? entry).or held[i]? ∧ ∀ j, j ≠ i → next[j]? = held[j]? := by
  unfold addPatch change?
  by_cases hconcerns : widener.concerns entry = true
  · rcases (entryFault?_eq_none_iff entry).mp h hconcerns with ⟨layout, hparse⟩
    have hpatch := rewrite_of_parse hset hconcerns hparse .sorted
    simp only [hconcerns, if_true, hpatch]
    by_cases hsame : (widener.rewrite entry).contents = entry.contents
    · refine ⟨held, ?_, ?_, fun _ _ => rfl⟩
      · simp only [ne_eq, hsame, not_true_eq_false, decide_false]
      · rw [if_pos hsame, Option.none_or]
    · refine ⟨held.insert i (widener.rewrite entry).contents, ?_, ?_, fun j hj => ?_⟩
      · simp only [ne_eq, hsame, not_false_eq_true, decide_true]
      · rw [Std.ExtTreeMap.getElem?_insert_self, if_neg hsame, Option.some_or]
      · rw [Std.ExtTreeMap.getElem?_insert, if_neg]
        exact fun heq => hj (Std.LawfulEqCmp.compare_eq_iff_eq.mp heq).symm
  · -- An entry that is not concerned is given what it has.
    rw [Bool.not_eq_true] at hconcerns
    refine ⟨held, ?_, ?_, fun _ _ => rfl⟩
    · simp only [hconcerns, Bool.false_eq_true, if_false]
    · rw [rewrite_of_not_concerns hconcerns, if_pos rfl, Option.none_or]

/-! ### The first pass -/

theorem foldlM_addPatch_of_fault (hset : ofSet set = .ok widener) {archive : Archive}
    {fault : Fault} (h : archive.findSome? widener.entryFault? = some fault) (start : Nat)
    (held : Std.ExtTreeMap Nat Bytes) :
    (archive.zipIdx start).foldlM widener.addPatch held = .error fault := by
  induction archive generalizing start held with
  | nil => cases h
  | cons entry rest ih =>
      rw [List.zipIdx_cons, List.foldlM_cons]
      cases hentry : widener.entryFault? entry with
      | some first =>
          rw [List.findSome?_cons, hentry, Option.some.injEq] at h
          -- The fold stops here, and what it held is dropped.
          rw [addPatch_of_fault hentry, h]
          rfl
      | none =>
          rw [List.findSome?_cons, hentry] at h
          rcases addPatch_of_noFault hset hentry held start with ⟨next, hstep, -⟩
          rw [hstep]
          exact ih h (start + 1) next

/-- What a list of entries adds, none of which stops the widening, starting at a position from
    which nothing is held yet. -/
theorem foldlM_addPatch_of_noFault (hset : ofSet set = .ok widener) {archive : Archive}
    (h : archive.findSome? widener.entryFault? = none) (start : Nat)
    {held : Std.ExtTreeMap Nat Bytes} (hfree : ∀ i, start ≤ i → held[i]? = none) :
    ∃ patches, (archive.zipIdx start).foldlM widener.addPatch held = .ok patches ∧
      (∀ i, i < start → patches[i]? = held[i]?) ∧
      ∀ i, patches[start + i]? = archive[i]?.bind widener.change? := by
  induction archive generalizing start held with
  | nil =>
      refine ⟨held, rfl, fun _ _ => rfl, fun i => ?_⟩
      rw [hfree (start + i) (Nat.le_add_right start i), List.getElem?_nil, Option.bind_none]
  | cons entry rest ih =>
      rw [List.findSome?_eq_none_iff, List.forall_mem_cons] at h
      rcases addPatch_of_noFault hset h.1 held start with ⟨next, hstep, hfirst, hothers⟩
      -- The later entries start where nothing is held, and leave this position alone.
      have hnext : ∀ i, start + 1 ≤ i → next[i]? = none := by
        intro i hi
        rw [hothers i (by omega), hfree i (by omega)]
      have hrest : rest.findSome? widener.entryFault? = none := List.findSome?_eq_none_iff.mpr h.2
      rcases ih hrest (start + 1) hnext with ⟨patches, hpatches, hbelow, hlater⟩
      refine ⟨patches, ?_, fun i hi => ?_, fun i => ?_⟩
      · rw [List.zipIdx_cons, List.foldlM_cons, hstep]
        exact hpatches
      · rw [hbelow i (by omega), hothers i (by omega)]
      · cases i with
        | zero =>
            rw [Nat.add_zero, hbelow start (by omega), hfirst, hfree start (Nat.le_refl start),
              Option.or_none, List.getElem?_cons_zero, Option.bind_some]
        | succ i =>
            rw [List.getElem?_cons_succ, show start + (i + 1) = start + 1 + i by omega]
            exact hlater i

theorem patches_of_fault (hset : ofSet set = .ok widener) {archive : Archive} {fault : Fault}
    (h : archive.findSome? widener.entryFault? = some fault) :
    widener.patches archive = .error fault :=
  foldlM_addPatch_of_fault hset h 0 ∅

/-- The contents that change are found, at the positions of the entries whose contents they are. -/
theorem exists_patches (hset : ofSet set = .ok widener) {archive : Archive}
    (h : archive.findSome? widener.entryFault? = none) :
    ∃ patches, widener.patches archive = .ok patches ∧
      ∀ i : Nat, patches[i]? = archive[i]?.bind widener.change? := by
  rcases foldlM_addPatch_of_noFault hset h 0 (fun i _ => Std.ExtTreeMap.getElem?_empty) with
    ⟨patches, hpatches, -, hfound⟩
  refine ⟨patches, hpatches, fun i => ?_⟩
  rw [← hfound i, Nat.zero_add]

/-! ### The second pass -/

section Patching

variable {archive : Archive} {patches : Std.ExtTreeMap Nat Bytes}
variable (hfound : ∀ i : Nat, patches[i]? = archive[i]?.bind widener.change?)

include hfound

/-- Patching an archive with the contents that change rewrites every entry. -/
theorem patched_eq_map : archive.patched patches = archive.map widener.rewrite := by
  refine List.ext_getElem? (fun i => ?_)
  rw [Archive.patched, List.getElem?_mapIdx, List.getElem?_map]
  cases hget : archive[i]? with
  | none => rfl
  | some entry =>
      have hentry := hfound i
      rw [hget, Option.bind_some] at hentry
      rw [Option.map_some, Option.map_some, hentry, rewrite_eq]
      cases widener.change? entry <;> rfl

/-- Nothing is noted exactly if rewriting leaves the archive as it is. -/
theorem isEmpty_patches_iff : patches.isEmpty = true ↔ archive.map widener.rewrite = archive := by
  constructor
  · intro hempty
    -- Patching with nothing changes nothing.
    rw [← patched_eq_map hfound, Std.ExtTreeMap.isEmpty_iff.mp hempty]
    refine List.ext_getElem? (fun i => ?_)
    rw [Archive.patched, List.getElem?_mapIdx]
    simp only [Std.ExtTreeMap.getElem?_empty, Option.map_id']
  · intro hsame
    rw [Std.ExtTreeMap.isEmpty_iff]
    refine Std.ExtTreeMap.ext_getElem? (fun {i} => ?_)
    rw [Std.ExtTreeMap.getElem?_empty, hfound]
    have hentry := congrArg (·[i]?) hsame
    simp only [List.getElem?_map] at hentry
    cases hget : archive[i]? with
    | none => rfl
    | some entry =>
        rw [hget, Option.map_some, Option.some.injEq] at hentry
        rw [Option.bind_some, change?, hentry, if_pos rfl]

end Patching

/-- Rewriting differs from the archive exactly if the contents of some entry differ. -/
theorem map_rewrite_ne_iff (archive : Archive) :
    archive.map widener.rewrite ≠ archive ↔
      ∃ i : Nat, (archive.map widener.rewrite)[i]?.map (·.contents) ≠
        archive[i]?.map (·.contents) := by
  constructor
  · intro hne
    by_contra hall
    -- Rewriting changes contents only, so equal contents make equal entries.
    refine hne (List.ext_getElem? (fun i => ?_))
    have hcontents := Classical.not_not.mp (not_exists.mp hall i)
    rw [List.getElem?_map] at hcontents ⊢
    cases hget : archive[i]? with
    | none => rfl
    | some entry =>
        simp only [hget, Option.map_some, Option.some.injEq] at hcontents
        rw [Option.map_some, rewrite_eq, change?, if_pos hcontents]
        rfl
  · rintro ⟨i, hi⟩ hsame
    exact hi (by rw [hsame])

/-- Some entry stops the widening exactly if its class file may have to change and is none. -/
theorem findSome?_entryFault?_eq_none_iff (archive : Archive) :
    archive.findSome? widener.entryFault? = none ↔
      ¬∃ entry ∈ archive, widener.Concerned entry ∧
        ∃ cause, ClassLayout.parse entry.contents = .error cause := by
  rw [List.findSome?_eq_none_iff]
  simp only [entryFault?_eq_none_iff, concerns_iff, not_exists, not_and]
  refine forall_congr' (fun entry => imp_congr_right (fun _ => imp_congr_right (fun _ => ?_)))
  cases ClassLayout.parse entry.contents with
  | error cause => simp only [reduceCtorEq, exists_false, Except.error.injEq, forall_eq']
  | ok layout => simp only [Except.ok.injEq, exists_eq', reduceCtorEq, not_false_eq_true,
      implies_true]

end Widener

end AccessWidener
