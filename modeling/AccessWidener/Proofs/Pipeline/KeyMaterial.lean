import AccessWidener.Pipeline.CacheKey
import AccessWidener.Proofs.Text.Utf8

/-!
# Contributors Are Read Back

The bytes that a key is the digest of stand for a set of contributors and for no other one. In one
direction nothing has to be shown of the bytes: they are written from the set, so whatever two lists
of files agree on but the set makes no difference.

The other direction takes the bytes apart again. Names have no fixed length and digests may hold any
bytes, zeros and the bytes of names among them. Yet reading from the front is never in doubt: as
long as no name holds a zero byte, the first one ends the first name, and the digest behind it is as
long as every other digest (`encode_append_inj`). So the contributors are found one after the other,
however many there are. A name with a zero byte could end too early, which is why it is excluded.

What is a digest here is any function, since nothing is used of it but the length of its values.

## Main definitions

* `SameContributors`: Two lists of files stand for the same set of contributors.
* `Contributor.Legible`: A name without a zero byte, and a digest of a fixed length.

## Theorems

* `cacheKeyWith_eq_none_iff`: There is a key exactly if there are files.
* `cacheKeyWith_of_ne_nil`: The key of files is the digest of the bytes that stand for them.
* `contributors_eq_iff`: When two lists of files have the same contributors.
* `flatMap_encode_inj`: Legible contributors are told by the bytes that stand for them.
* `keyMaterial_identifies`: The bytes under a key identify the set of contributors.
-/

namespace AccessWidener

variable {digest : Bytes → Bytes} {files files' : List DirectiveFile}

/-- Two lists of files have the same set of origins with content digests. Order, repetition, paths
    and versions have no part in it. -/
def SameContributors (digest : Bytes → Bytes) (files files' : List DirectiveFile) : Prop :=
  ∀ origin value, (∃ file ∈ files, file.origin = origin ∧ digest file.content = value) ↔
    ∃ file ∈ files', file.origin = origin ∧ digest file.content = value

/-! ### The set of contributors -/

theorem mem_contributors_iff {contributor : Contributor} :
    contributor ∈ contributors digest files ↔
      ∃ file ∈ files, Contributor.ofFile digest file = contributor := by
  rw [contributors, Std.ExtTreeSet.mem_ofList, List.contains_iff_mem, List.mem_map]

/-- Every file has a contributor, so only no files have none. -/
theorem isEmpty_contributors_iff (digest : Bytes → Bytes) (files : List DirectiveFile) :
    (contributors digest files).isEmpty = true ↔ files = [] := by
  rw [Std.ExtTreeSet.isEmpty_iff, contributors, Std.ExtTreeSet.ofList_eq_empty_iff,
    List.map_eq_nil_iff]

/-- There is a key exactly if there are files. -/
theorem cacheKeyWith_eq_none_iff (digest : Bytes → Bytes) (files : List DirectiveFile) :
    cacheKeyWith digest files = none ↔ files = [] := by
  rw [cacheKeyWith, ← isEmpty_contributors_iff digest]
  split
  next h => exact iff_of_true rfl h
  next h => exact iff_of_false (Option.some_ne_none _) h

/-- The key of files is the digest of the bytes that stand for them, in hexadecimal. -/
theorem cacheKeyWith_of_ne_nil (digest : Bytes → Bytes) (hfiles : files ≠ []) :
    cacheKeyWith digest files = some (Bytes.toHex (digest (keyMaterial digest files))) := by
  rw [cacheKeyWith, if_neg]
  rwa [isEmpty_contributors_iff]

theorem contributors_eq_iff :
    contributors digest files = contributors digest files' ↔
      SameContributors digest files files' := by
  -- The set holds a pair exactly if some file has that origin and that digest.
  have hmem : ∀ (list : List DirectiveFile) (origin : String) (value : Bytes),
      (⟨origin, value⟩ : Contributor) ∈ contributors digest list ↔
        ∃ file ∈ list, file.origin = origin ∧ digest file.content = value := by
    intro list origin value
    rw [mem_contributors_iff]
    simp only [Contributor.ofFile, Contributor.mk.injEq]
  constructor
  · intro h origin value
    rw [← hmem, ← hmem, h]
  · intro h
    refine Std.ExtTreeSet.ext_mem (fun contributor => ?_)
    rcases contributor with ⟨origin, value⟩
    rw [hmem, hmem]
    exact h origin value

/-! ### Reading contributors back -/

/-- What can be read back from bytes: a name that holds no zero byte, and a digest of a length that
    is known. -/
structure Contributor.Legible (width : Nat) (contributor : Contributor) : Prop where
  plain : 0 ∉ Utf8.encodeString contributor.origin
  width : contributor.digest.length = width

/-- Up to the first zero byte two strings of bytes can be told apart from what follows. -/
theorem append_zero_inj {name name' rest rest' : Bytes} (hname : 0 ∉ name) (hname' : 0 ∉ name')
    (h : name ++ 0 :: rest = name' ++ 0 :: rest') : name = name' ∧ rest = rest' := by
  -- A name that ends first has its zero byte where the other one has a byte of its own.
  induction name generalizing name' with
  | nil =>
      cases name' with
      | nil => exact ⟨rfl, List.tail_eq_of_cons_eq h⟩
      | cons b name' =>
          rw [List.nil_append, List.cons_append] at h
          have hb : 0 = b := List.head_eq_of_cons_eq h
          rw [← hb] at hname'
          exact absurd List.mem_cons_self hname'
  | cons a name ih =>
      cases name' with
      | nil =>
          rw [List.nil_append, List.cons_append] at h
          have ha : a = 0 := List.head_eq_of_cons_eq h
          rw [ha] at hname
          exact absurd List.mem_cons_self hname
      | cons b name' =>
          rw [List.cons_append, List.cons_append, List.cons.injEq] at h
          rw [List.mem_cons, not_or] at hname hname'
          rcases ih hname.2 hname'.2 h.2 with ⟨htail, hrest⟩
          exact ⟨by rw [h.1, htail], hrest⟩

namespace Contributor

variable {width : Nat}

/-- A legible contributor at the front is told from the bytes behind it. -/
theorem encode_append_inj {first first' : Contributor} (hfirst : first.Legible width)
    (hfirst' : first'.Legible width) {rest rest' : Bytes}
    (h : first.encode ++ rest = first'.encode ++ rest') : first = first' ∧ rest = rest' := by
  rw [encode, encode, List.append_assoc, List.append_assoc, List.cons_append, List.cons_append] at h
  rcases append_zero_inj hfirst.plain hfirst'.plain h with ⟨horigin, hbehind⟩
  -- The first zero byte ends the origin, and digests are of one width, so the rest splits off.
  have hlength : first.digest.length = first'.digest.length := hfirst.width.trans hfirst'.width.symm
  rcases List.append_inj hbehind hlength with ⟨hdigest, hrest⟩
  refine ⟨?_, hrest⟩
  rcases first with ⟨origin, value⟩
  rcases first' with ⟨origin', value'⟩
  rw [mk.injEq]
  exact ⟨Utf8.encodeString_inj horigin, hdigest⟩

theorem encode_ne_nil (contributor : Contributor) : contributor.encode ≠ [] :=
  List.append_ne_nil_of_right_ne_nil _ (List.cons_ne_nil _ _)

/-- Legible contributors are told by the bytes that stand for them, whatever their number. -/
theorem flatMap_encode_inj {listed listed' : List Contributor}
    (hlisted : ∀ contributor ∈ listed, contributor.Legible width)
    (hlisted' : ∀ contributor ∈ listed', contributor.Legible width)
    (h : listed.flatMap encode = listed'.flatMap encode) : listed = listed' := by
  -- No contributor stands for no bytes, so the two lists end together.
  induction listed generalizing listed' with
  | nil =>
      cases listed' with
      | nil => rfl
      | cons first' listed' =>
          rw [List.flatMap_nil, List.flatMap_cons, eq_comm, List.append_eq_nil_iff] at h
          exact absurd h.1 first'.encode_ne_nil
  | cons first listed ih =>
      cases listed' with
      | nil =>
          rw [List.flatMap_nil, List.flatMap_cons, List.append_eq_nil_iff] at h
          exact absurd h.1 first.encode_ne_nil
      | cons first' listed' =>
          rw [List.flatMap_cons, List.flatMap_cons] at h
          rw [List.forall_mem_cons] at hlisted hlisted'
          rcases encode_append_inj hlisted.1 hlisted'.1 h with ⟨hfirst, hrest⟩
          rw [hfirst, ih hlisted.2 hlisted'.2 hrest]

end Contributor

/-! ### What a key identifies -/

theorem legible_of_mem_contributors {width : Nat}
    (hdigest : ∀ content, (digest content).length = width)
    (hplain : ∀ file ∈ files, 0 ∉ Utf8.encodeString file.origin) :
    ∀ contributor ∈ (contributors digest files).toList, contributor.Legible width := by
  intro contributor hmem
  rw [Std.ExtTreeSet.mem_toList, mem_contributors_iff] at hmem
  rcases hmem with ⟨file, hfile, rfl⟩
  exact ⟨hplain file hfile, hdigest file.content⟩

/-- Whatever function gives digests of thirty-two bytes, there is a key exactly if there are files.
    It is then the digest of certain bytes in hexadecimal, and these bytes identify the set of
    contributors: lists of files with the same contributors have the same bytes and the same key,
    and lists with the same bytes have the same contributors, as long as no origin holds a zero
    byte. -/
theorem keyMaterial_identifies (digest : Bytes → Bytes)
    (hdigest : ∀ content, (digest content).length = 32) (files files' : List DirectiveFile) :
    (cacheKeyWith digest files = none ↔ files = []) ∧
    (files ≠ [] →
      cacheKeyWith digest files = some (Bytes.toHex (digest (keyMaterial digest files)))) ∧
    (SameContributors digest files files' →
      keyMaterial digest files = keyMaterial digest files' ∧
        cacheKeyWith digest files = cacheKeyWith digest files') ∧
    ((∀ file ∈ files ++ files', 0 ∉ Utf8.encodeString file.origin) →
      keyMaterial digest files = keyMaterial digest files' →
        SameContributors digest files files') := by
  refine ⟨cacheKeyWith_eq_none_iff digest files, cacheKeyWith_of_ne_nil digest,
    fun hsame => ?_, fun hplain hmaterial => ?_⟩
  · have hset := contributors_eq_iff.mpr hsame
    exact ⟨by rw [keyMaterial, keyMaterial, hset],
      by rw [cacheKeyWith, cacheKeyWith, keyMaterial, keyMaterial, hset]⟩
  · rw [List.forall_mem_append] at hplain
    have hlists : (contributors digest files).toList = (contributors digest files').toList :=
      Contributor.flatMap_encode_inj (legible_of_mem_contributors hdigest hplain.1)
        (legible_of_mem_contributors hdigest hplain.2) hmaterial
    -- Equal lists have equal members, and membership is all that a set is.
    have hset : contributors digest files = contributors digest files' := by
      refine Std.ExtTreeSet.ext_mem (fun contributor => ?_)
      rw [← Std.ExtTreeSet.mem_toList, ← Std.ExtTreeSet.mem_toList, hlists]
    exact contributors_eq_iff.mp hset

/-- A mod with a directive file. -/
def lidFile : DirectiveFile where
  origin := "lid"
  source := ⟨"lid.jar"⟩
  content := Utf8.encodeString "accessWidener v2 named\n"
  version := 2

/-- Another mod with a file of the same content. -/
def hingeFile : DirectiveFile :=
  { lidFile with origin := "hinge", source := ⟨"hinge.jar"⟩ }

/-- The two files, one of them once more from another place. -/
def hingedLidFiles : List DirectiveFile :=
  [hingeFile, { lidFile with source := ⟨"copy.jar"⟩, version := 1 }, lidFile]

/-- With the digest that keys are made of, the order of two mods and a second copy of one make no
    difference, while leaving one of them out does. -/
theorem keyMaterial_identifies_hingedLid :
    (∀ content, (sha256 content).length = 32) ∧
      SameContributors sha256 [lidFile, hingeFile] hingedLidFiles ∧
      keyMaterial sha256 [lidFile, hingeFile] = keyMaterial sha256 hingedLidFiles ∧
      cacheKey [lidFile, hingeFile] = cacheKey hingedLidFiles ∧
      cacheKey hingedLidFiles = some (Bytes.toHex (sha256 (keyMaterial sha256 hingedLidFiles))) ∧
      keyMaterial sha256 [lidFile, hingeFile] ≠ keyMaterial sha256 [lidFile] := by
  have hwidth : ∀ content, (sha256 content).length = 32 := Sha256.length_sha256
  have hsame : SameContributors sha256 [lidFile, hingeFile] hingedLidFiles := by
    intro origin value
    simp only [hingedLidFiles, List.mem_cons, List.not_mem_nil, or_false, exists_eq_or_imp,
      exists_eq_left, hingeFile, or_self]
    exact or_comm
  have hplain : ∀ file ∈ [lidFile, hingeFile] ++ hingedLidFiles,
      0 ∉ Utf8.encodeString file.origin := by decide
  rcases keyMaterial_identifies sha256 hwidth [lidFile, hingeFile] hingedLidFiles with
    ⟨-, -, hforth, hback⟩
  rcases keyMaterial_identifies sha256 hwidth hingedLidFiles hingedLidFiles with ⟨-, hdigest, -⟩
  rcases keyMaterial_identifies sha256 hwidth [lidFile, hingeFile] [lidFile] with ⟨-, -, -, hfewer⟩
  have hmaterial := (hforth hsame).1
  refine ⟨hwidth, hback hplain hmaterial, hmaterial, (hforth hsame).2,
    hdigest (List.cons_ne_nil _ _), ?_⟩
  -- If the bytes were the same, the mod that was left out would have to be among the others.
  intro hequal
  rcases (hfewer (by decide) hequal "hinge" (sha256 hingeFile.content)).mp
    ⟨hingeFile, by decide, rfl, rfl⟩ with ⟨file, hfile, horigin, -⟩
  rw [List.mem_singleton] at hfile
  rw [hfile] at horigin
  exact absurd horigin (by decide)

end AccessWidener
