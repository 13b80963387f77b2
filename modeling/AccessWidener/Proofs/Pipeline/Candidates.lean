import Mathlib.Data.List.Nodup
import AccessWidener.Proofs.Pipeline.Scanning

/-!
# Candidates in Any Order

Discovery is given a list of paths and gives a list of files. What it gives is described by four
facts that say nothing of the order in which paths were listed (`Discovered`), and the description
leaves no choice: a strictly increasing list is known from its members. So a list of candidates may
be permuted and may repeat itself.

The description is about paths and not about spellings. Of several spellings of a path one is
scanned, and it speaks for the others as long as all of them lead to the same thing (`Consistent`).
They do, in every tree, if all of them or none end like the path of a directory. This is a real
condition. A final slash makes no difference between paths, and yet nothing is found behind it if
the path is that of a file. The spelling that is listed last is the one that is scanned, and so the
order can decide what is found (`discover_order_slash`).

## Main definitions

* `FileTree.Consistent`: Spellings of one path lead to the same thing.
* `DirectiveFile.unspelled`: A file without the spelling of its path.
* `Discovered`: What discovery gives, path by path.
* `ScanRule`: What the scan of a path answers, said of the bytes it finds.

## Theorems

* `mem_of_mem_distinctPaths`, `exists_mem_distinctPaths`, `pairwise_distinctPaths`: Every path once.
* `FileTree.lookup_congr`, `FileTree.consistent_of_requiresDirectory`: Which spellings lead to the
  same thing.
* `scanRule`: Scans follow the rule.
* `discovered_of_discover`: Discovery gives what the scans retain.
* `Discovered.unique`: There is only one such list, up to spelling.
* `discover_exact`: What discovery gives, for candidates in any order.
-/

namespace AccessWidener

/-! ### Every path once -/

section Distinct

variable {κ ν : Type} {cmp : κ → κ → Ordering} [Std.TransCmp cmp]

/-- The values of a map are those of its entries, in the order of their keys. -/
theorem values_eq (map : Std.ExtTreeMap κ ν cmp) : map.values = map.toList.map Prod.snd := by
  rcases map with ⟨⟨inner⟩⟩
  induction inner using Quotient.inductionOn with
  | _ inner =>
      change inner.inner.values =
        (Std.DTreeMap.Internal.Impl.Const.toList inner.inner).map Prod.snd
      rw [Std.DTreeMap.Internal.Impl.values_eq_map_snd,
        Std.DTreeMap.Internal.Impl.Const.toList_eq_toListModel_map, List.map_map]
      rfl

end Distinct

section Paths

variable {paths : List Path} {path : Path}

/-- The paths of a list by their components, the last spelling of each. -/
def lastSpellings (held : Std.ExtTreeMap (List PathComponent) Path) (paths : List Path) :
    Std.ExtTreeMap (List PathComponent) Path :=
  paths.foldl (fun held path => held.insert path.components path) held

/-- What is held was listed and stands under its own components, or was held before. -/
theorem mem_of_lastSpellings {held : Std.ExtTreeMap (List PathComponent) Path}
    {components : List PathComponent} (h : (lastSpellings held paths)[components]? = some path) :
    held[components]? = some path ∨ path ∈ paths ∧ path.components = components := by
  induction paths generalizing held with
  | nil => exact .inl h
  | cons first rest ih =>
      rcases ih h with hheld | ⟨hmem, hcomponents⟩
      · rw [Std.ExtTreeMap.getElem?_insert] at hheld
        -- A later spelling of the same components takes the place of the held one.
        by_cases hfirst : compare first.components components = .eq
        · rw [if_pos hfirst, Option.some.injEq] at hheld
          have hcomponents := Std.LawfulEqCmp.eq_of_compare hfirst
          exact .inr ⟨hheld ▸ List.mem_cons_self, hheld ▸ hcomponents⟩
        · rw [if_neg hfirst] at hheld
          exact .inl hheld
      · exact .inr ⟨List.mem_cons_of_mem first hmem, hcomponents⟩

/-- Some spelling of every listed path is held, and of what was held before. -/
theorem isSome_lastSpellings {held : Std.ExtTreeMap (List PathComponent) Path}
    (h : path ∈ paths ∨ held[path.components]?.isSome = true) :
    (lastSpellings held paths)[path.components]?.isSome = true := by
  induction paths generalizing held with
  | nil => exact h.resolve_left List.not_mem_nil
  | cons first rest ih =>
      apply ih
      -- Nothing is ever taken out: a place once filled is at most filled again.
      rw [Std.ExtTreeMap.getElem?_insert]
      by_cases hfirst : compare first.components path.components = .eq
      · exact .inr (by rw [if_pos hfirst]; rfl)
      · rw [if_neg hfirst]
        rcases h with hmem | hheld
        · rcases List.mem_cons.mp hmem with rfl | hmem
          · exact absurd (Std.LawfulEqCmp.compare_eq_iff_eq.mpr rfl) hfirst
          · exact .inl hmem
        · exact .inr hheld

theorem distinctPaths_eq (paths : List Path) :
    distinctPaths paths = (lastSpellings ∅ paths).toList.map Prod.snd :=
  values_eq _

/-- A path stands under its own components. -/
theorem mem_of_mem_toList {entry : List PathComponent × Path}
    (h : entry ∈ (lastSpellings ∅ paths).toList) :
    entry.2 ∈ paths ∧ entry.2.components = entry.1 := by
  rw [Std.ExtTreeMap.mem_toList_iff_getElem?_eq_some] at h
  rcases mem_of_lastSpellings h with hempty | hmem
  · rw [Std.ExtTreeMap.getElem?_empty] at hempty
    cases hempty
  · exact hmem

/-- What is scanned was listed. -/
theorem mem_of_mem_distinctPaths (h : path ∈ distinctPaths paths) : path ∈ paths := by
  rw [distinctPaths_eq, List.mem_map] at h
  rcases h with ⟨entry, hentry, rfl⟩
  exact (mem_of_mem_toList hentry).1

/-- Every listed path is scanned, in one of its spellings. -/
theorem exists_mem_distinctPaths (h : path ∈ paths) :
    ∃ kept ∈ distinctPaths paths, kept.components = path.components := by
  have hsome : (lastSpellings ∅ paths)[path.components]?.isSome = true :=
    isSome_lastSpellings (.inl h)
  rcases Option.isSome_iff_exists.mp hsome with ⟨kept, hkept⟩
  have hentry := Std.ExtTreeMap.mem_toList_iff_getElem?_eq_some.mpr hkept
  refine ⟨kept, ?_, (mem_of_mem_toList hentry).2⟩
  rw [distinctPaths_eq]
  exact List.mem_map_of_mem hentry

/-- No two spellings of a path are scanned. -/
theorem pairwise_distinctPaths (paths : List Path) :
    (distinctPaths paths).Pairwise (fun a b => a.components ≠ b.components) := by
  rw [distinctPaths_eq, List.pairwise_map]
  refine Std.ExtTreeMap.distinct_keys_toList.imp_of_mem (fun {a b} ha hb hne heq => hne ?_)
  rw [← (mem_of_mem_toList ha).2, ← (mem_of_mem_toList hb).2]
  exact Std.LawfulEqCmp.compare_eq_iff_eq.mpr heq

end Paths

/-! ### What discovery gives -/

/-- Candidates that are the same path lead to the same thing, however they are spelled. -/
def FileTree.Consistent (tree : FileTree) (candidates : List Path) : Prop :=
  ∀ path ∈ candidates, ∀ other ∈ candidates, path.components = other.components →
    tree.lookup path = tree.lookup other

/-- Only the empty path has no components. -/
theorem Path.components_eq_nil_iff (path : Path) : path.components = [] ↔ path.spelling = "" := by
  constructor
  · intro h
    rw [components, List.append_eq_nil_iff, List.map_eq_nil_iff, List.filter_eq_nil_iff] at h
    rcases h with ⟨hlead, hparts⟩
    -- A part that names nothing is empty or a point, and with a point the path starts at `.`.
    have hempty : path.parts = [""] := by
      unfold lead at hlead
      split at hlead
      · cases hlead
      · cases hlead
      · next hroot hcurrent =>
        cases hsplit : path.parts with
        | nil =>
            rw [parts, List.map_eq_nil_iff] at hsplit
            exact absurd hsplit (List.splitOn_ne_nil _ _)
        | cons first rest =>
            have hfirst := hparts first (hsplit ▸ List.mem_cons_self)
            simp only [isSignificant, Bool.and_eq_true, decide_eq_true_eq, ne_eq, not_and,
              Decidable.not_not] at hfirst
            by_cases hnothing : first = ""
            · cases rest with
              | nil => rw [hnothing]
              | cons second others => exact absurd (hnothing ▸ hsplit) (hroot second others)
            · exact absurd (hfirst hnothing ▸ hsplit) (hcurrent rest)
    have hsplit : path.spelling.toList.splitOn '/' = [[]] := by
      have hmap := congrArg (List.map String.toList) hempty
      simpa [parts, List.map_map, Function.comp_def] using hmap
    have hjoined : ['/'].intercalate (path.spelling.toList.splitOn '/') = path.spelling.toList :=
      List.intercalate_splitOn '/'
    rw [hsplit] at hjoined
    exact String.toList_eq_nil_iff.mp hjoined.symm
  · intro h
    rw [components, lead, parts, h]
    rfl

/-- Beyond the components of a path only this matters for what it leads to: whether it is spelled as
    the path of a directory. -/
theorem FileTree.lookup_congr (tree : FileTree) {path other : Path}
    (hcomponents : path.components = other.components)
    (hdirectory : path.requiresDirectory = other.requiresDirectory) :
    tree.lookup path = tree.lookup other := by
  have hempty : path.spelling = "" ↔ other.spelling = "" := by
    rw [← Path.components_eq_nil_iff, ← Path.components_eq_nil_iff, hcomponents]
  have hresolve : tree.resolve path = tree.resolve other := by
    simp only [resolve, hempty, hcomponents]
  unfold lookup
  rw [hresolve, hdirectory]

/-- Candidates are consistent in every tree if the spellings of a path are all those of a directory
    or none is. -/
theorem FileTree.consistent_of_requiresDirectory (tree : FileTree) {candidates : List Path}
    (h : ∀ path ∈ candidates, ∀ other ∈ candidates, path.components = other.components →
      path.requiresDirectory = other.requiresDirectory) : tree.Consistent candidates :=
  fun path hpath other hother hcomponents =>
    tree.lookup_congr hcomponents (h path hpath other hother hcomponents)

/-- A directive file without the spelling of its path. -/
structure UnspelledFile where
  origin : String
  source : List PathComponent
  content : Bytes
  version : Nat
deriving DecidableEq, Repr

/-- The file without the spelling of its path. -/
def DirectiveFile.unspelled (file : DirectiveFile) : UnspelledFile where
  origin := file.origin
  source := file.source.components
  content := file.content
  version := file.version

/-- Files are ordered by mod and then by path, whose spelling does not matter. -/
def UnspelledFile.compare (left right : UnspelledFile) : Ordering :=
  (Ord.compare left.origin right.origin).then (Ord.compare left.source right.source)

/-- The list of the files that scans of the candidates retain: by mod and path, and for each path
    once. -/
structure Discovered (tree : FileTree) (platforms : List Platform) (candidates : List Path)
    (files : List DirectiveFile) : Prop where
  increasing : files.Pairwise (fun a b => a.compare b = .lt)
  distinct : files.Pairwise (fun a b => a.source.components ≠ b.source.components)
  retained : ∀ file ∈ files, file.source ∈ candidates ∧
    scanCandidate tree platforms file.source = .ok (some file)
  complete : ∀ path ∈ candidates, ∀ file, scanCandidate tree platforms path = .ok (some file) →
    ∃ kept ∈ files, kept.unspelled = file.unspelled

/-! ### Discovery and its description -/

section Discover

variable {tree : FileTree} {settings : Settings} {platforms : List Platform}
variable {candidates : List Path} {files : List DirectiveFile}

theorem discover_eq_ok_iff : discover tree settings candidates = .ok files ↔
    ∃ scanned : List (Option DirectiveFile),
      (distinctPaths candidates).map (scanCandidate tree settings.platforms) = scanned.map .ok ∧
      (scanned.filterMap id).mergeSort (fun left right => (left.compare right).isLE) = files := by
  unfold discover
  rw [scanAll_eq]
  simp only [bind_eq_ok_iff, mapM_eq_ok_iff, pure, Except.pure, Except.ok.injEq]

/-- Discovery succeeds if the scans of all distinct paths do. -/
theorem exists_discover_iff : (∃ files, discover tree settings candidates = .ok files) ↔
    ∀ path ∈ distinctPaths candidates,
      ∃ found, scanCandidate tree settings.platforms path = .ok found := by
  rw [← exists_mapM_eq_ok_iff]
  simp only [discover_eq_ok_iff, mapM_eq_ok_iff]
  constructor
  · rintro ⟨files, scanned, hscanned, -⟩
    exact ⟨scanned, hscanned⟩
  · rintro ⟨scanned, hscanned⟩
    exact ⟨_, scanned, hscanned, rfl⟩

instance : Std.TransCmp DirectiveFile.compare :=
  inferInstanceAs (Std.TransCmp
    (compareLex (compareOn DirectiveFile.origin) (compareOn (·.source.components))))

/-- Files that are in order and have different paths are strictly in order. -/
theorem compare_eq_lt {left right : DirectiveFile} (hle : (left.compare right).isLE = true)
    (hne : left.source.components ≠ right.source.components) : left.compare right = .lt := by
  cases horder : left.compare right with
  | lt => rfl
  | gt =>
      rw [horder] at hle
      cases hle
  | eq =>
      rw [DirectiveFile.compare, Ordering.then_eq_eq] at horder
      exact absurd (Std.LawfulEqCmp.eq_of_compare horder.2) hne

/-- Of two files one comes first, or they are not told apart. -/
theorem isLE_compare_total (left right : DirectiveFile) :
    ((left.compare right).isLE || (right.compare left).isLE) = true := by
  have hswap : left.compare right = (right.compare left).swap := Std.OrientedCmp.eq_swap
  rw [hswap]
  cases right.compare left <;> rfl

/-- The retained files have different paths, as the scanned paths are different. -/
theorem pairwise_scanned {scanned : List (Option DirectiveFile)}
    (h : (distinctPaths candidates).map (scanCandidate tree platforms) = scanned.map .ok) :
    (scanned.filterMap id).Pairwise (fun a b => a.source.components ≠ b.source.components) := by
  have hscans : ((distinctPaths candidates).map (scanCandidate tree platforms)).Pairwise
      (fun result result' => ∀ file, result = .ok (some file) →
        ∀ file', result' = .ok (some file') →
          file.source.components ≠ file'.source.components) := by
    rw [List.pairwise_map]
    refine (pairwise_distinctPaths candidates).imp (fun hne file hfile file' hfile' => ?_)
    -- A found file names the candidate it was found in, and candidates differ in components.
    rw [((scanCandidate_eq_some_iff file).mp hfile).1,
      ((scanCandidate_eq_some_iff file').mp hfile').1]
    exact hne
  rw [h, List.pairwise_map] at hscans
  rw [List.pairwise_filterMap]
  exact hscans.imp fun hpair file hfile file' hfile' =>
    hpair file (congrArg Except.ok hfile) file' (congrArg Except.ok hfile')

/-- Discovery gives what the scans of the candidates retain. -/
theorem discovered_of_discover (hconsistent : tree.Consistent candidates)
    (h : discover tree settings candidates = .ok files) :
    Discovered tree settings.platforms candidates files := by
  rcases discover_eq_ok_iff.mp h with ⟨scanned, hscanned, rfl⟩
  have hperm := List.mergeSort_perm (scanned.filterMap id)
    (fun left right => (left.compare right).isLE)
  have hdistinct := hperm.symm.pairwise (pairwise_scanned hscanned) (fun hne => hne.symm)
  have hsorted : ((scanned.filterMap id).mergeSort
      (fun left right => (left.compare right).isLE)).Pairwise
        (fun left right => (left.compare right).isLE = true) :=
    List.pairwise_mergeSort (fun a b c => Std.TransCmp.isLE_trans) isLE_compare_total _
  refine ⟨?_, hdistinct, fun file hfile => ?_, fun path hpath file hscan => ?_⟩
  · -- Files in order that are told apart are strictly in order.
    exact hsorted.imp₂ (fun _ _ hle hne => compare_eq_lt hle hne) hdistinct
  · rcases (mem_discover_iff h file).mp hfile with ⟨path, hpath, hscan⟩
    have hsource := ((scanCandidate_eq_some_iff file).mp hscan).1
    rw [hsource]
    exact ⟨mem_of_mem_distinctPaths hpath, hscan⟩
  · -- The spelling that was scanned leads to the same thing.
    rcases exists_mem_distinctPaths hpath with ⟨kept, hkept, hcomponents⟩
    have hlookup := hconsistent path hpath kept (mem_of_mem_distinctPaths hkept) hcomponents.symm
    have hfile := (mem_discover_iff h _).mpr ⟨kept, hkept, scanCandidate_congr hlookup hscan⟩
    refine ⟨_, hfile, ?_⟩
    simp only [DirectiveFile.unspelled, hcomponents, ((scanCandidate_eq_some_iff file).mp hscan).1]

/-- The files of a description, without spellings, are those that the scans retain. -/
theorem Discovered.mem_unspelled_iff (h : Discovered tree platforms candidates files)
    (found : UnspelledFile) : found ∈ files.map DirectiveFile.unspelled ↔
      ∃ path ∈ candidates, ∃ file, scanCandidate tree platforms path = .ok (some file) ∧
        file.unspelled = found := by
  rw [List.mem_map]
  constructor
  · rintro ⟨file, hmem, hfile⟩
    rcases h.retained file hmem with ⟨hsource, hscan⟩
    exact ⟨file.source, hsource, file, hscan, hfile⟩
  · rintro ⟨path, hpath, file, hscan, hfile⟩
    rcases h.complete path hpath file hscan with ⟨kept, hkept, hunspelled⟩
    exact ⟨kept, hkept, hunspelled.trans hfile⟩

instance : Std.TransCmp UnspelledFile.compare :=
  inferInstanceAs (Std.TransCmp
    (compareLex (compareOn UnspelledFile.origin) (compareOn UnspelledFile.source)))

/-- A strictly increasing list is known from its members. -/
theorem eq_of_increasing {found found' : List UnspelledFile}
    (h : found.Pairwise (fun a b => a.compare b = .lt))
    (h' : found'.Pairwise (fun a b => a.compare b = .lt))
    (hmem : ∀ file, file ∈ found ↔ file ∈ found') : found = found' := by
  have hirrefl : ∀ a b : UnspelledFile, a.compare b = .lt → a ≠ b := by
    rintro a _ hlt rfl
    have hself : a.compare a = .eq := Std.ReflCmp.compare_self
    rw [hself] at hlt
    cases hlt
  have hperm := (List.perm_ext_iff_of_nodup (h.imp (hirrefl _ _)) (h'.imp (hirrefl _ _))).mpr hmem
  -- A permutation between two increasing lists leaves every file where it is.
  refine hperm.eq_of_pairwise (fun a b _ _ hlt hgt => ?_) h h'
  have hswap : a.compare b = (b.compare a).swap := Std.OrientedCmp.eq_swap
  rw [hswap, hgt] at hlt
  cases hlt

/-- Candidates in any order and number have one description, up to spelling. -/
theorem Discovered.unique {candidates' : List Path} {files' : List DirectiveFile}
    (h : Discovered tree platforms candidates files)
    (h' : Discovered tree platforms candidates' files')
    (hmem : ∀ path, path ∈ candidates' ↔ path ∈ candidates) :
    files'.map DirectiveFile.unspelled = files.map DirectiveFile.unspelled := by
  have hincreasing : ∀ {candidates : List Path} {files : List DirectiveFile},
      Discovered tree platforms candidates files →
        (files.map DirectiveFile.unspelled).Pairwise (fun a b => a.compare b = .lt) :=
    fun h => List.pairwise_map.mpr h.increasing
  refine eq_of_increasing (hincreasing h') (hincreasing h) (fun found => ?_)
  simp only [h'.mem_unspelled_iff, h.mem_unspelled_iff, hmem]

/-- If spellings of one path lead to the same thing, discovery succeeds exactly if all scans do. -/
theorem exists_discover_iff_scans (h : tree.Consistent candidates) :
    (∃ files, discover tree settings candidates = .ok files) ↔
      ∀ path ∈ candidates, ∃ found, scanCandidate tree settings.platforms path = .ok found := by
  rw [exists_discover_iff]
  constructor
  · intro hscans path hpath
    rcases exists_mem_distinctPaths hpath with ⟨kept, hkept, hcomponents⟩
    rcases hscans kept hkept with ⟨found, hfound⟩
    exact ⟨_, scanCandidate_congr (h kept (mem_of_mem_distinctPaths hkept) path hpath hcomponents)
      hfound⟩
  · exact fun hscans path hpath => hscans path (mem_of_mem_distinctPaths hpath)

theorem FileTree.Consistent.of_mem_iff {candidates' : List Path} (h : tree.Consistent candidates)
    (hmem : ∀ path, path ∈ candidates' ↔ path ∈ candidates) : tree.Consistent candidates' :=
  fun path hpath other hother =>
    h path ((hmem path).mp hpath) other ((hmem other).mp hother)

end Discover

/-- What the scan of a path answers, said of the bytes it finds. -/
structure ScanRule (tree : FileTree) (platforms : List Platform) (path : Path) : Prop where
  retains : ∀ file, scanCandidate tree platforms path = .ok (some file) ↔
    file.source = path ∧ file.version = 2 ∧ Declares tree platforms path file.origin file.content ∧
      HasVersion file.content 2 ∧ (readEvents file.content).fault = none ∧
        ∃ d ∈ file.directives, d.transitive = true
  old : ∀ origin content, Declares tree platforms path origin content → HasVersion content 1 →
    scanCandidate tree platforms path = .ok none
  noVersion : ∀ origin content, Declares tree platforms path origin content →
    ¬HasVersion content 1 → ¬HasVersion content 2 →
      ∃ fault, scanCandidate tree platforms path = .error (.directive fault)
  malformed : ∀ origin content, Declares tree platforms path origin content →
    HasVersion content 2 → ∀ fault, (readEvents content).fault = some fault →
      scanCandidate tree platforms path = .error (.directive fault)

theorem scanRule (tree : FileTree) (platforms : List Platform) (path : Path) :
    ScanRule tree platforms path where
  retains file := scanCandidate_eq_some_iff file
  old _ _ hdeclares hversion := scanCandidate_of_old hdeclares hversion
  noVersion _ _ hdeclares hold hnew := scanCandidate_of_noVersion hdeclares hold hnew
  malformed _ _ hdeclares hversion _ hfault := scanCandidate_of_malformed hdeclares hversion hfault

/-- Discovery succeeds exactly if the scans of all candidates do, and then gives what they retain,
    once for every path and in the order of mods and paths. Candidates in another order and number,
    and scans in parallel or not, give the same files up to the spelling of their paths. -/
theorem discover_exact (tree : FileTree) (settings : Settings) (candidates : List Path)
    (h : tree.Consistent candidates) :
    ((∃ files, discover tree settings candidates = .ok files) ↔
        ∀ path ∈ candidates, ∃ found, scanCandidate tree settings.platforms path = .ok found) ∧
      (∀ files, discover tree settings candidates = .ok files →
        Discovered tree settings.platforms candidates files ∧
          ∀ settings' candidates', settings'.platforms = settings.platforms →
            (∀ path, path ∈ candidates' ↔ path ∈ candidates) →
              ∃ files', discover tree settings' candidates' = .ok files' ∧
                files'.map DirectiveFile.unspelled = files.map DirectiveFile.unspelled) ∧
      ∀ path, ScanRule tree settings.platforms path := by
  refine ⟨exists_discover_iff_scans h, fun files hfiles => ?_, scanRule tree settings.platforms⟩
  have hdiscovered := discovered_of_discover h hfiles
  refine ⟨hdiscovered, fun settings' candidates' hplatforms hmem => ?_⟩
  -- The scans are the same ones, so the other run succeeds as well.
  have hscans := (exists_discover_iff_scans h).mp ⟨files, hfiles⟩
  have h' := h.of_mem_iff hmem
  have hsuccess : ∃ files', discover tree settings' candidates' = .ok files' := by
    rw [exists_discover_iff_scans h', hplatforms]
    exact fun path hpath => hscans path ((hmem path).mp hpath)
  rcases hsuccess with ⟨files', hfiles'⟩
  have hdiscovered' := discovered_of_discover h' hfiles'
  rw [hplatforms] at hdiscovered'
  exact ⟨files', hfiles', hdiscovered.unique hdiscovered' hmem⟩

/-- A mod that exports a class. -/
def exportingTree : FileTree where
  nodes := [(["a.jar"], .archive [
    { name := "fabric.mod.json"
      contents := Utf8.encodeString "\x7b\"id\": \"A\", \"accessWidener\": \"w.aw\"\x7d" },
    { name := "w.aw"
      contents := Utf8.encodeString
        "accessWidener v2 intermediary\ntransitive-accessible class a/A\n" }])]

/-- The file that the mod declares, with the path of the mod. -/
def exportedFile (source : Path) : DirectiveFile where
  origin := "A"
  source := source
  content := Utf8.encodeString "accessWidener v2 intermediary\ntransitive-accessible class a/A\n"
  version := 2

/-- Two spellings that lead to the mod, and a path that leads nowhere. -/
theorem discover_exact_twoSpellings :
    exportingTree.Consistent [⟨"./a.jar"⟩, ⟨"gone.jar"⟩, ⟨".//a.jar"⟩] ∧
      discover exportingTree {} [⟨"./a.jar"⟩, ⟨"gone.jar"⟩, ⟨".//a.jar"⟩] =
        .ok [exportedFile ⟨".//a.jar"⟩] ∧
      Discovered exportingTree [.fabric] [⟨"./a.jar"⟩, ⟨"gone.jar"⟩, ⟨".//a.jar"⟩]
        [exportedFile ⟨".//a.jar"⟩] := by
  have hconsistent : exportingTree.Consistent [⟨"./a.jar"⟩, ⟨"gone.jar"⟩, ⟨".//a.jar"⟩] := by
    unfold FileTree.Consistent
    decide +kernel
  have hdiscover : discover exportingTree {} [⟨"./a.jar"⟩, ⟨"gone.jar"⟩, ⟨".//a.jar"⟩] =
      .ok [exportedFile ⟨".//a.jar"⟩] := by decide +kernel
  rcases discover_exact exportingTree {} _ hconsistent with ⟨-, hfiles, -⟩
  exact ⟨hconsistent, hdiscover, (hfiles _ hdiscover).1⟩

/-- With a final slash nothing is found, although it is the same path, and the spelling that is
    listed last decides. -/
theorem discover_order_slash :
    (⟨"a.jar"⟩ : Path).components = (⟨"a.jar/"⟩ : Path).components ∧
      scanCandidate exportingTree [.fabric] ⟨"a.jar"⟩ = .ok (some (exportedFile ⟨"a.jar"⟩)) ∧
      discover exportingTree {} [⟨"a.jar/"⟩, ⟨"a.jar"⟩] = .ok [exportedFile ⟨"a.jar"⟩] ∧
      discover exportingTree {} [⟨"a.jar"⟩, ⟨"a.jar/"⟩] = .ok [] := by
  refine ⟨?_, ?_, ?_, ?_⟩ <;> decide +kernel

end AccessWidener
