import AccessWidener.Proofs.Storage.FileTree
import AccessWidener.Proofs.Widening.Entries

/-!
# Widening an Archive

Widening an archive either succeeds for every entry or changes nothing. An archive in which some
entry stops the widening is left alone and the first such entry is reported. In any other archive
the entries stay where they are and keep their attributes, those that are concerned have their class
file widened, and the rest is as it was. The widener tells that the archive changed exactly if the
contents of some entry did; if none did, the archive is not written back.

`Outcome` lists what widening can come to, once and with everything that is known in each case. The
statements about failures and successes are read off it by cases.

## Main definitions

* `Widener.Outcome`: What widening the archive at a path can come to.

## Theorems

* `apply_of_unchanged`, `apply_of_changed`: Whether an archive is written back.
* `outcome_apply`: Widening comes to one of its outcomes.
* `exists_apply_eq_error_iff`, `apply_eq_error`: When widening fails, and what is known then.
* `apply_eq_ok`: What is found in an archive after widening.
* `apply_exact`: Widening an archive is exact, and all or nothing.
-/

namespace AccessWidener

namespace Widener

variable {set : DirectiveSet} {widener : Widener}

/-- What widening the archive at a path can come to: there is no archive, some entry stops the
    widening, or every entry is rewritten. Only in the last case may the tree be another one, and
    then it is so under this path only. -/
inductive Outcome (widener : Widener) (tree : FileTree) (path : Path) :
    FileTree × Except Fault Bool → Prop
  | noArchive (fault : Fault) (hopens : ∀ archive, tree.lookup path ≠ .ok (.archive archive))
      (hfault : fault = .archive path ∨ ∃ cause, fault = .storage cause) :
      Outcome widener tree path (tree, .error fault)
  | stopped (archive : Archive) (fault : Fault)
      (hlookup : tree.lookup path = .ok (.archive archive))
      (hfault : archive.findSome? widener.entryFault? = some fault) :
      Outcome widener tree path (tree, .error fault)
  | rewritten (archive : Archive) (left : FileTree)
      (hlookup : tree.lookup path = .ok (.archive archive))
      (hfree : archive.findSome? widener.entryFault? = none)
      (hleft : left.lookup path = .ok (.archive (archive.map widener.rewrite)))
      (hsame : archive.map widener.rewrite = archive → left = tree)
      (hothers : ∀ names, tree.resolve path ≠ .ok names → left.nodeAt? names = tree.nodeAt? names) :
      Outcome widener tree path (left, .ok (decide (archive.map widener.rewrite ≠ archive)))

/-- If every entry is left as it is, nothing is written back. -/
theorem apply_of_unchanged (hset : ofSet set = .ok widener) {tree : FileTree} {path : Path}
    {archive : Archive} (hlookup : tree.lookup path = .ok (.archive archive))
    (hfree : archive.findSome? widener.entryFault? = none)
    (hsame : archive.map widener.rewrite = archive) :
    widener.apply tree path = (tree, .ok false) := by
  have hne : Node.archive archive ≠ .directory := fun heq => by cases heq
  rcases FileTree.lookup_eq_ok hlookup hne with ⟨names, hresolve, -⟩
  rcases exists_patches hset hfree with ⟨patches, hpatches, hfound⟩
  have hempty : patches.isEmpty = true := (isEmpty_patches_iff hfound).mpr hsame
  simp only [apply, hresolve, hlookup, hpatches]
  rw [if_pos hempty]

/-- If some entry changes, the rewritten archive takes the place of the old one. -/
theorem apply_of_changed (hset : ofSet set = .ok widener) {tree : FileTree} {path : Path}
    {archive : Archive} (hlookup : tree.lookup path = .ok (.archive archive))
    (hfree : archive.findSome? widener.entryFault? = none)
    (hchanged : archive.map widener.rewrite ≠ archive) :
    ∃ left, widener.apply tree path = (left, .ok true) ∧
      left.lookup path = .ok (.archive (archive.map widener.rewrite)) ∧
      ∀ names, tree.resolve path ≠ .ok names → left.nodeAt? names = tree.nodeAt? names := by
  have hne : Node.archive archive ≠ .directory := fun heq => by cases heq
  have hne' : Node.archive (archive.map widener.rewrite) ≠ .directory := fun heq => by cases heq
  rcases FileTree.lookup_eq_ok hlookup hne with ⟨names, hresolve, hnode, hrequires⟩
  rcases exists_patches hset hfree with ⟨patches, hpatches, hfound⟩
  have hsome : ¬patches.isEmpty = true := fun h => hchanged ((isEmpty_patches_iff hfound).mp h)
  refine ⟨tree.put names (.archive (archive.map widener.rewrite)), ?_, ?_, fun other hother => ?_⟩
  · simp only [apply, hresolve, hlookup, hpatches]
    rw [if_neg hsome, patched_eq_map hfound]
  · exact FileTree.lookup_put hnode hne hne' hresolve hrequires
  · -- Only the place that the path leads to is written.
    rw [FileTree.nodeAt?_put hnode hne, if_neg]
    rintro rfl
    exact hother hresolve

/-- If every entry can be read, all of them are rewritten. The archive is written back only if that
    makes a difference to it. -/
theorem outcome_of_noFault (hset : ofSet set = .ok widener) {tree : FileTree} {path : Path}
    {archive : Archive} (hlookup : tree.lookup path = .ok (.archive archive))
    (hfree : archive.findSome? widener.entryFault? = none) :
    Outcome widener tree path (widener.apply tree path) := by
  -- An archive that came out the same is not written.
  by_cases hsame : archive.map widener.rewrite = archive
  · have hfalse : decide (archive.map widener.rewrite ≠ archive) = false :=
      decide_eq_false (not_not_intro hsame)
    rw [apply_of_unchanged hset hlookup hfree hsame, ← hfalse]
    refine .rewritten archive tree hlookup hfree ?_ (fun _ => rfl) (fun _ _ => rfl)
    rw [hsame, hlookup]
  · have htrue : decide (archive.map widener.rewrite ≠ archive) = true := decide_eq_true hsame
    rcases apply_of_changed hset hlookup hfree hsame with ⟨left, happly, hleft, hothers⟩
    rw [happly, ← htrue]
    exact .rewritten archive left hlookup hfree hleft (fun heq => absurd heq hsame) hothers

/-- Widening comes to one of the three. -/
theorem outcome_apply (hset : ofSet set = .ok widener) (tree : FileTree) (path : Path) :
    Outcome widener tree path (widener.apply tree path) := by
  by_cases hopens : ∃ archive, tree.lookup path = .ok (.archive archive)
  · rcases hopens with ⟨archive, hlookup⟩
    cases hfault : archive.findSome? widener.entryFault? with
    | none => exact outcome_of_noFault hset hlookup hfault
    | some fault =>
        -- All patches are made before anything is written, so a fault leaves the tree alone.
        rcases FileTree.lookup_eq_ok hlookup (fun heq => by cases heq) with ⟨names, hresolve, -⟩
        simp only [apply, hresolve, hlookup, patches_of_fault hset hfault]
        exact .stopped archive fault hlookup hfault
  · rw [not_exists] at hopens
    unfold apply
    split
    next archive _ hlookup => exact absurd hlookup (hopens archive)
    next => exact .noArchive (.archive path) hopens (Or.inl rfl)
    next cause _ => exact .noArchive (.storage cause) hopens (Or.inr ⟨cause, rfl⟩)

/-- After a widening that succeeds, an archive is found under the path as before, with every entry
    rewritten. The entries that were concerned were class files. -/
theorem apply_eq_ok (hset : ofSet set = .ok widener) {tree left : FileTree} {path : Path}
    {changed : Bool} (h : widener.apply tree path = (left, .ok changed)) :
    ∃ archive, tree.lookup path = .ok (.archive archive) ∧
      left.lookup path = .ok (.archive (archive.map widener.rewrite)) ∧
      ∀ entry ∈ archive, widener.concerns entry = true →
        ∃ layout, ClassLayout.parse entry.contents = .ok layout := by
  have houtcome := outcome_apply hset tree path
  rw [h] at houtcome
  -- Of the three outcomes one alone is a success.
  cases houtcome with
  | rewritten archive _ hlookup hfree hleft =>
      rw [List.findSome?_eq_none_iff] at hfree
      exact ⟨archive, hlookup, hleft,
        fun entry hmem => (entryFault?_eq_none_iff entry).mp (hfree entry hmem)⟩

/-! ### The whole statement -/

/-- When widening fails. -/
theorem exists_apply_eq_error_iff (hset : ofSet set = .ok widener) (tree : FileTree)
    (path : Path) :
    (∃ left fault, widener.apply tree path = (left, .error fault)) ↔
      (∀ archive, tree.lookup path ≠ .ok (.archive archive)) ∨
        ∃ archive, tree.lookup path = .ok (.archive archive) ∧
          ∃ entry ∈ archive, widener.Concerned entry ∧
            ∃ cause, ClassLayout.parse entry.contents = .error cause := by
  generalize hresult : widener.apply tree path = result
  have houtcome := outcome_apply hset tree path
  rw [hresult] at houtcome
  cases houtcome with
  | noArchive fault hopens => exact iff_of_true ⟨tree, fault, rfl⟩ (Or.inl hopens)
  | stopped archive fault hlookup hfault =>
      refine iff_of_true ⟨tree, fault, rfl⟩ (Or.inr ⟨archive, hlookup, ?_⟩)
      -- The fault is that of some entry, so one is concerned and does not parse.
      by_contra hnone
      rw [(findSome?_entryFault?_eq_none_iff archive).mpr hnone] at hfault
      cases hfault
  | rewritten archive left hlookup hfree =>
      refine iff_of_false ?_ ?_
      · rintro ⟨_, fault, h⟩
        cases h
      · -- Neither reason applies: the archive opened, and none of its entries was at fault.
        rintro (hopens | ⟨other, hother, hstops⟩)
        · exact hopens archive hlookup
        · cases FileTree.archive_eq_of_lookup hlookup hother
          exact (findSome?_entryFault?_eq_none_iff archive).mp hfree hstops

/-- What is known after a failure: nothing has changed, and the entry that is reported is the first
    one that stops the widening. -/
theorem apply_eq_error (hset : ofSet set = .ok widener) {tree left : FileTree} {path : Path}
    {fault : Fault} (h : widener.apply tree path = (left, .error fault)) :
    left = tree ∧ ∀ archive, tree.lookup path = .ok (.archive archive) →
      ∃ before entry after cause, archive = before ++ entry :: after ∧
        (∀ earlier ∈ before, widener.Concerned earlier →
          ∃ layout, ClassLayout.parse earlier.contents = .ok layout) ∧
        widener.Concerned entry ∧ ClassLayout.parse entry.contents = .error cause ∧
        fault = .classFile entry.name cause := by
  have houtcome := outcome_apply hset tree path
  rw [h] at houtcome
  cases houtcome with
  | noArchive _ hopens =>
      exact ⟨rfl, fun archive hlookup => absurd hlookup (hopens archive)⟩
  | stopped archive _ hlookup hfault =>
      refine ⟨rfl, fun other hother => ?_⟩
      cases FileTree.archive_eq_of_lookup hlookup hother
      -- The fault is that of an entry with none in front of it that has one.
      rcases List.findSome?_eq_some_iff.mp hfault with
        ⟨before, entry, after, hsplit, hentry, hbefore⟩
      rcases (entryFault?_eq_some_iff entry fault).mp hentry with
        ⟨hconcerns, cause, hparse, hcause⟩
      refine ⟨before, entry, after, cause, hsplit, fun earlier hmem hconcerned => ?_,
        (concerns_iff entry).mp hconcerns, hparse, hcause⟩
      exact (entryFault?_eq_none_iff earlier).mp (hbefore earlier hmem)
        ((concerns_iff earlier).mpr hconcerned)

/-- Widening an archive is exact, and all or nothing. It fails exactly if there is no archive, or if
    some entry whose class file may have to change is not a class file. After a failure the tree is
    as it was, and the entry reported is the first one of that kind. After a success the archive has
    the same entries in the same order, each of them rewritten by itself, no other file has changed,
    and the archive is said to have changed exactly if the contents of some entry did; if it is
    said not to have, the tree is as it was. -/
theorem apply_exact (set : DirectiveSet) (hset : set.isEmpty = false) :
    ∃ widener, ofSet set = .ok widener ∧ ∀ (tree : FileTree) (path : Path),
      ((∃ left fault, widener.apply tree path = (left, .error fault)) ↔
        (∀ archive, tree.lookup path ≠ .ok (.archive archive)) ∨
          ∃ archive, tree.lookup path = .ok (.archive archive) ∧
            ∃ entry ∈ archive, widener.Concerned entry ∧
              ∃ cause, ClassLayout.parse entry.contents = .error cause) ∧
      (∀ left fault, widener.apply tree path = (left, .error fault) →
        left = tree ∧ ∀ archive, tree.lookup path = .ok (.archive archive) →
          ∃ before entry after cause, archive = before ++ entry :: after ∧
            (∀ earlier ∈ before, widener.Concerned earlier →
              ∃ layout, ClassLayout.parse earlier.contents = .ok layout) ∧
            widener.Concerned entry ∧ ClassLayout.parse entry.contents = .error cause ∧
            fault = .classFile entry.name cause) ∧
      (∀ left changed, widener.apply tree path = (left, .ok changed) →
        ∃ archive rewritten, tree.lookup path = .ok (.archive archive) ∧
          left.lookup path = .ok (.archive rewritten) ∧
          rewritten.length = archive.length ∧
          (∀ (i : Nat) (entry : ArchiveEntry), archive[i]? = some entry →
            ∃ entry', rewritten[i]? = some entry' ∧ widener.Rewritten entry entry') ∧
          (changed = true ↔
            ∃ i : Nat, rewritten[i]?.map (·.contents) ≠ archive[i]?.map (·.contents)) ∧
          (changed = false → left = tree) ∧
          ∀ names, tree.resolve path ≠ .ok names → left.nodeAt? names = tree.nodeAt? names) := by
  rcases exists_ofSet hset with ⟨widener, hwidener⟩
  refine ⟨widener, hwidener, fun tree path => ⟨exists_apply_eq_error_iff hwidener tree path,
    fun left fault h => apply_eq_error hwidener h, fun left changed h => ?_⟩⟩
  -- Of the three outcomes only the rewritten archive is a success; what it leaves is compared entry
  -- by entry.
  have houtcome := outcome_apply hwidener tree path
  rw [h] at houtcome
  cases houtcome with
  | rewritten archive _ hlookup hfree hleft hsame hothers =>
      rw [List.findSome?_eq_none_iff] at hfree
      refine ⟨archive, archive.map widener.rewrite, hlookup, hleft, List.length_map _,
        fun i entry hget => ?_, ?_, fun hunchanged => ?_, hothers⟩
      · refine ⟨widener.rewrite entry, ?_, ?_⟩
        · rw [List.getElem?_map, hget, Option.map_some]
        · -- No entry is at fault, hence not this one.
          exact rewritten_rewrite hwidener (hfree entry (List.mem_of_getElem? hget))
      · rw [decide_eq_true_eq, map_rewrite_ne_iff]
      · rw [decide_eq_false_iff_not] at hunchanged
        exact hsame (Classical.not_not.mp hunchanged)

/-- A text and a class that keeps a method private. -/
def textAndClass : Archive :=
  [{ name := "notes.txt", contents := [0x68, 0x69], mode := 0o600 },
    { name := "Box.class", contents := oneMethodClass, stored := true }]

/-- Two archives with a text and a class. In one of them the class has a newer variant as well,
    which is cut short. -/
def twoArchivesTree : FileTree where
  nodes := [(["whole.jar"], .archive textAndClass),
    (["cut.jar"], .archive (textAndClass ++
      [{ name := "META-INF/versions/9/Box.class", contents := oneMethodClass.take 20 }]))]

/-- One archive is widened and its text kept. The other one stays as it was, although its first
    class could have been widened. -/
theorem apply_exact_twoArchives :
    oneMethodSet.isEmpty = false ∧ ∃ widener, ofSet oneMethodSet = .ok widener ∧
      (∃ fault, widener.apply twoArchivesTree ⟨"cut.jar"⟩ = (twoArchivesTree, .error fault)) ∧
      ∃ left rewritten text, widener.apply twoArchivesTree ⟨"whole.jar"⟩ = (left, .ok true) ∧
        left.lookup ⟨"whole.jar"⟩ = .ok (.archive rewritten) ∧ rewritten.length = 2 ∧
        rewritten[0]? = some text ∧ text.mode = 0o600 ∧ text.contents = [0x68, 0x69] := by
  have hset : oneMethodSet.isEmpty = false := by decide
  have hlookup : twoArchivesTree.lookup ⟨"whole.jar"⟩ = .ok (.archive textAndClass) := by decide
  rcases apply_exact oneMethodSet hset with ⟨widener, hwidener, hall⟩
  have hcut : ∃ fault, (widener.apply twoArchivesTree ⟨"cut.jar"⟩).2 = .error fault := by
    cases hwidener
    exact ⟨.classFile "META-INF/versions/9/Box.class" .unexpectedEnd, by decide⟩
  have hwhole : (widener.apply twoArchivesTree ⟨"whole.jar"⟩).2 = .ok true := by
    cases hwidener
    decide
  rcases hcut with ⟨fault, hfault⟩
  -- The damaged class stops the run and the tree is as before, the good archive included.
  have hstays := ((hall twoArchivesTree ⟨"cut.jar"⟩).2.1 _ _ (Prod.ext rfl hfault)).1
  rcases (hall twoArchivesTree ⟨"whole.jar"⟩).2.2 _ _ (Prod.ext rfl hwhole) with
    ⟨archive, rewritten, hfound, hleft, hlength, hentries, -⟩
  cases FileTree.archive_eq_of_lookup hlookup hfound
  rcases hentries 0 _ rfl with ⟨text, htext, hrewritten⟩
  -- No class has a path like that of the text.
  have hclass : classAtPath? "notes.txt" = none := by decide
  have hkept : text.contents = [0x68, 0x69] := by
    refine hrewritten.kept ?_
    rintro ⟨-, name, hname, -⟩
    cases hclass.symm.trans hname
  exact ⟨hset, widener, hwidener, ⟨fault, Prod.ext hstays hfault⟩, _, rewritten, text,
    Prod.ext rfl hwhole, hleft, hlength, htext, hrewritten.mode, hkept⟩

end Widener

end AccessWidener
