import AccessWidener.Proofs.Directive.Headers
import AccessWidener.Proofs.Pipeline.Discovery

/-!
# What a Scan Answers

The scan of one path has few answers. An archive declares a directive file if its metadata names an
entry that it holds, and only one of its metadata files counts. If nothing is declared, nothing is
found. Otherwise the answer depends on the bytes of the declared file alone, and first of all on the
version in its header: an old file is no mistake, whatever else is in it, and a file of the current
version has to be well formed before it is asked for exports.

## Main definitions

* `selectedSchema`: The metadata file that counts in an archive.
* `Declares`: The archive at a path declares a directive file with these bytes.
* `MetadataBroken`: The archive at a path has metadata that is not understood.
* `HasVersion`: Bytes whose header declares a version.

## Theorems

* `readVersion_eq_ok_iff`: The version that is read is the one in the header.
* `scanCandidate_of_declares`: The scan of a path that declares a file.
* `scanCandidate_eq_some_iff`: What a scan retains.
* `scanCandidate_of_old`, `scanCandidate_of_noVersion`, `scanCandidate_of_malformed`: The scan of an
  old file and of a broken one.
* `scanCandidate_of_metadataBroken`, `scanCandidate_of_undeclared`: The scan of a path that declares
  no file.
* `scanCandidate_congr`: How a path is spelled matters for finding it only.
-/

namespace AccessWidener

/-- The metadata that counts in an archive: that of Quilt if the platform is enabled and the archive
    has it, and that of Fabric otherwise. -/
def selectedSchema (archive : Archive) (platforms : List Platform) : Schema :=
  if .quilt ∈ platforms ∧ (archive.contents? Schema.quilt.entryName).isSome then .quilt else .fabric

/-- The path leads to an archive whose metadata names a mod and an entry, and the archive holds the
    entry with these bytes. -/
inductive Declares (tree : FileTree) (platforms : List Platform) (path : Path) :
    String → Bytes → Prop
  | intro {archive : Archive} {bytes content : Bytes} {metadata : ModMetadata} {location : String}
      (isArchive : tree.lookup path = .ok (.archive archive))
      (hasMetadata :
        archive.contents? (selectedSchema archive platforms).entryName = some bytes)
      (spelled : ModMetadata.parse (selectedSchema archive platforms) bytes = some metadata)
      (located : metadata.location = some location)
      (present : archive.contents? location = some content) :
      Declares tree platforms path metadata.id content

/-- The path leads to an archive whose metadata is not understood. -/
def MetadataBroken (tree : FileTree) (platforms : List Platform) (path : Path) : Prop :=
  ∃ archive bytes, tree.lookup path = .ok (.archive archive) ∧
    archive.contents? (selectedSchema archive platforms).entryName = some bytes ∧
      ModMetadata.parse (selectedSchema archive platforms) bytes = none

/-- Bytes are text whose first significant line starts with the mark of directive files and a word
    for the version. Further words and lines do not matter. -/
def HasVersion (content : Bytes) (version : Nat) : Prop :=
  ∃ text number word more body, Utf8.decode content = .ok text ∧
    significantLines text = { number, first := headerMagic, rest := word :: more } :: body ∧
      versionOfWord? word = some version

/-! ### Versions -/

/-- A version is read if the header declares it and it is understood. -/
theorem readVersion_eq_ok_iff (content : Bytes) (version : Nat) :
    readVersion content = .ok version ↔
      HasVersion content version ∧ supportedVersion version = true := by
  unfold HasVersion readVersion headerLine decodeText
  cases hdecode : Utf8.decode content with
  | error fault => simp [bind, Except.bind]
  | ok text =>
      cases hlines : significantLines text with
      | nil => simp [bind, Except.bind, hlines]
      | cons line body =>
          simp only [bind, Except.bind, hlines]
          -- Only the first significant line is looked at, and of it only the first words.
          rw [parseVersion_eq_ok_iff]
          constructor
          · rintro ⟨word, more, hfirst, hrest, hword, hsupported⟩
            refine ⟨⟨text, line.number, word, more, body, rfl, ?_, hword⟩, hsupported⟩
            rw [hlines, ← hfirst, ← hrest]
          · rintro ⟨⟨text', number, word, more, body', htext, hheader, hword⟩, hsupported⟩
            cases htext
            rw [hlines, List.cons.injEq] at hheader
            rw [hheader.1]
            exact ⟨word, more, rfl, rfl, hword, hsupported⟩

/-! ### Declared files -/

section Scan

variable {tree : FileTree} {platforms : List Platform} {path : Path}

theorem selectMetadata_eq (archive : Archive) (path : Path) (platforms : List Platform) :
    selectMetadata archive path platforms =
      readMetadata archive path (selectedSchema archive platforms) := by
  unfold selectMetadata selectedSchema
  split <;> rfl

/-- A declared file is taken out of its archive if its version can be read. -/
theorem extractDirectiveFile_of_declares {origin : String} {content : Bytes}
    (h : Declares tree platforms path origin content) :
    extractDirectiveFile tree path platforms =
      match readVersion content with
      | .error fault => .error (.directive fault)
      | .ok version => .ok (some { origin, source := path, content, version }) := by
  rcases h with ⟨isArchive, hasMetadata, spelled, located, present⟩
  unfold extractDirectiveFile
  cases hread : readVersion content <;>
    simp only [isArchive, selectMetadata_eq, readMetadata, hasMetadata, spelled, bind, Except.bind,
      declaredFile, located, Option.bind_some, present, hread]

/-- What is taken out of an archive was declared. -/
theorem declares_of_extractDirectiveFile {file : DirectiveFile}
    (h : extractDirectiveFile tree path platforms = .ok (some file)) :
    Declares tree platforms path file.origin file.content := by
  unfold extractDirectiveFile at h
  split at h
  next archive isArchive =>
    rw [selectMetadata_eq] at h
    unfold readMetadata at h
    cases hasMetadata : archive.contents? (selectedSchema archive platforms).entryName with
    | none =>
        rw [hasMetadata] at h
        cases h
    | some bytes =>
        cases spelled : ModMetadata.parse (selectedSchema archive platforms) bytes with
        | none =>
            simp only [hasMetadata, spelled] at h
            cases h
        | some metadata =>
            simp only [hasMetadata, spelled, bind, Except.bind, declaredFile] at h
            split at h
            next => cases h
            next content hcontent =>
              split at h
              next => cases h
              next version hversion =>
                cases h
                -- What was found is the entry that the metadata names.
                rcases Option.bind_eq_some_iff.mp hcontent with ⟨location, located, present⟩
                exact .intro isArchive hasMetadata spelled located present
  next => cases h

/-- The scan of a path that declares a file depends on the bytes of the file. -/
theorem scanCandidate_of_declares {origin : String} {content : Bytes}
    (h : Declares tree platforms path origin content) :
    scanCandidate tree platforms path =
      match readVersion content with
      | .error fault => .error (.directive fault)
      | .ok version => retain { origin, source := path, content, version } := by
  unfold scanCandidate
  rw [extractDirectiveFile_of_declares h]
  cases readVersion content <;> rfl

theorem extractDirectiveFile_of_scanCandidate {file : DirectiveFile}
    (h : scanCandidate tree platforms path = .ok (some file)) :
    extractDirectiveFile tree path platforms = .ok (some file) := by
  unfold scanCandidate at h
  cases hextract : extractDirectiveFile tree path platforms with
  | error fault =>
      rw [hextract] at h
      cases h
  | ok found? =>
      cases found? with
      | none =>
          rw [hextract] at h
          cases h
      | some found =>
          rw [hextract] at h
          rw [((retain_eq_some_iff found file).mp h).1]

/-- A scan retains a file exactly if the path declares it, its header declares version 2, it is well
    formed and it exports something. -/
theorem scanCandidate_eq_some_iff (file : DirectiveFile) :
    scanCandidate tree platforms path = .ok (some file) ↔
      file.source = path ∧ file.version = 2 ∧
        Declares tree platforms path file.origin file.content ∧ HasVersion file.content 2 ∧
          (readEvents file.content).fault = none ∧ ∃ d ∈ file.directives, d.transitive = true := by
  constructor
  · intro h
    have hextract := extractDirectiveFile_of_scanCandidate h
    have hdeclares := declares_of_extractDirectiveFile hextract
    have hexporting := exporting_of_scanCandidate h
    have hread := (readVersion_eq_ok_iff _ _).mp hexporting.declared
    -- Exporting needs version 2 or later, and no later version is supported.
    have hversion : file.version = 2 := by
      have hlow := hexporting.version
      have hsupported := hread.2
      simp only [supportedVersion, Bool.or_eq_true, decide_eq_true_eq] at hsupported
      omega
    have hsource : file.source = path := by
      rw [extractDirectiveFile_of_declares hdeclares, hexporting.declared, Except.ok.injEq,
        Option.some.injEq] at hextract
      rw [← hextract]
    rw [hversion] at hread
    exact ⟨hsource, hversion, hdeclares, hread.1, hexporting.wellFormed, hexporting.exports⟩
  · rintro ⟨hsource, hversion, hdeclares, hheader, hfault, d, hmem, htransitive⟩
    have hread := (readVersion_eq_ok_iff file.content 2).mpr ⟨hheader, rfl⟩
    -- The first pass over the content finds the directive that the second one delivers.
    have hcontains := (containsTransitive_eq_true_iff file.content).mpr
      ⟨2, hread, Nat.le_refl 2, hfault, d, (file.mem_directives_iff d).mp hmem, htransitive⟩
    rw [scanCandidate_of_declares hdeclares, hread, ← hsource, ← hversion]
    exact (retain_eq_some_iff file file).mpr ⟨rfl, Nat.le_of_eq hversion.symm, hcontains⟩

/-! ### Other answers -/

variable {origin : String} {content : Bytes}

/-- A file of version 1 is not retained and no fault either, whatever its namespace and its body. -/
theorem scanCandidate_of_old (h : Declares tree platforms path origin content)
    (hversion : HasVersion content 1) : scanCandidate tree platforms path = .ok none := by
  have hread := (readVersion_eq_ok_iff content 1).mpr ⟨hversion, rfl⟩
  rw [scanCandidate_of_declares h, hread]
  rfl

/-- A file without a version that is understood is a fault. -/
theorem scanCandidate_of_noVersion (h : Declares tree platforms path origin content)
    (hold : ¬HasVersion content 1) (hnew : ¬HasVersion content 2) :
    ∃ fault, scanCandidate tree platforms path = .error (.directive fault) := by
  rcases readVersion_cases content with hread | hread | ⟨fault, hread⟩
  · exact absurd ((readVersion_eq_ok_iff content 1).mp hread).1 hold
  · exact absurd ((readVersion_eq_ok_iff content 2).mp hread).1 hnew
  · refine ⟨fault, ?_⟩
    rw [scanCandidate_of_declares h, hread]

/-- A file of version 2 that is not well formed is a fault. -/
theorem scanCandidate_of_malformed (h : Declares tree platforms path origin content)
    (hversion : HasVersion content 2) {fault : DirectiveFault}
    (hfault : (readEvents content).fault = some fault) :
    scanCandidate tree platforms path = .error (.directive fault) := by
  have hread := (readVersion_eq_ok_iff content 2).mpr ⟨hversion, rfl⟩
  have hcontains : containsTransitive content = .error fault := by
    simp only [containsTransitive, hread, bind, Except.bind, hfault]
    rfl
  rw [scanCandidate_of_declares h, hread]
  simp only [retain, hcontains]
  rfl

/-- Metadata that is not understood is a fault. -/
theorem scanCandidate_of_metadataBroken (h : MetadataBroken tree platforms path) :
    ∃ schema, scanCandidate tree platforms path = .error (.metadata path schema) := by
  rcases h with ⟨archive, bytes, isArchive, hasMetadata, broken⟩
  refine ⟨selectedSchema archive platforms, ?_⟩
  unfold scanCandidate extractDirectiveFile
  simp only [isArchive, selectMetadata_eq, readMetadata, hasMetadata, broken, bind, Except.bind]

/-- Where nothing is declared, nothing is found, and that is no fault. -/
theorem scanCandidate_of_undeclared (hmetadata : ¬MetadataBroken tree platforms path)
    (h : ∀ origin content, ¬Declares tree platforms path origin content) :
    scanCandidate tree platforms path = .ok none := by
  have hextract : extractDirectiveFile tree path platforms = .ok none := by
    unfold extractDirectiveFile
    split
    next archive isArchive =>
      rw [selectMetadata_eq, readMetadata]
      cases hasMetadata : archive.contents? (selectedSchema archive platforms).entryName with
      | none => rfl
      | some bytes =>
          cases spelled : ModMetadata.parse (selectedSchema archive platforms) bytes with
          | none => exact absurd ⟨archive, bytes, isArchive, hasMetadata, spelled⟩ hmetadata
          | some metadata =>
              simp only [spelled, bind, Except.bind, declaredFile]
              cases hcontent : metadata.location.bind archive.contents? with
              | none => rfl
              | some content =>
                  -- An entry that the metadata names and the archive holds would be declared.
                  rcases Option.bind_eq_some_iff.mp hcontent with ⟨location, located, present⟩
                  exact absurd (.intro isArchive hasMetadata spelled located present) (h _ content)
    next => rfl
  rw [scanCandidate, hextract]
  rfl

end Scan

/-! ### Spellings -/

section Spelling

variable {tree : FileTree} {platforms : List Platform} {path other : Path}

theorem Declares.congr (h : tree.lookup path = tree.lookup other) {origin : String}
    {content : Bytes} (hdeclares : Declares tree platforms path origin content) :
    Declares tree platforms other origin content := by
  rcases hdeclares with ⟨isArchive, hasMetadata, spelled, located, present⟩
  exact .intro (h ▸ isArchive) hasMetadata spelled located present

theorem MetadataBroken.congr (h : tree.lookup path = tree.lookup other)
    (hbroken : MetadataBroken tree platforms path) : MetadataBroken tree platforms other := by
  rcases hbroken with ⟨archive, bytes, isArchive, broken⟩
  exact ⟨archive, bytes, h ▸ isArchive, broken⟩

/-- Whether a file is retained does not depend on where it was found. -/
theorem retain_congr {file : DirectiveFile} {found : Option DirectiveFile}
    (h : retain file = .ok found) (source : Path) :
    retain { file with source } = .ok (found.map fun file => { file with source }) := by
  -- Whether a file is kept is read off its version and content, not off its path.
  have hsame : DirectiveFile.supportsTransitive { file with source } = file.supportsTransitive :=
    rfl
  rw [retain] at h
  rw [retain, hsame]
  cases hsupports : file.supportsTransitive with
  | false =>
      rw [hsupports] at h
      cases h
      rfl
  | true =>
      rw [hsupports] at h
      cases hcontains : containsTransitive file.content with
      | error fault =>
          rw [hcontains] at h
          cases h
      | ok exporting =>
          rw [hcontains] at h
          cases h
          cases exporting <;> rfl

/-- Two spellings that lead to the same thing are scanned alike: both scans succeed or none does,
    and they retain the same file under their own spelling. -/
theorem scanCandidate_congr (h : tree.lookup path = tree.lookup other)
    {found : Option DirectiveFile} (hscan : scanCandidate tree platforms path = .ok found) :
    scanCandidate tree platforms other =
      .ok (found.map fun file => { file with source := other }) := by
  by_cases hbroken : MetadataBroken tree platforms path
  · rcases scanCandidate_of_metadataBroken hbroken with ⟨schema, hfault⟩
    rw [hfault] at hscan
    cases hscan
  · by_cases hdeclares : ∃ origin content, Declares tree platforms path origin content
    · rcases hdeclares with ⟨origin, content, hdeclares⟩
      rw [scanCandidate_of_declares hdeclares] at hscan
      rw [scanCandidate_of_declares (hdeclares.congr h)]
      cases hread : readVersion content with
      | error fault =>
          rw [hread] at hscan
          cases hscan
      | ok version =>
          rw [hread] at hscan
          exact retain_congr hscan other
    · -- Nothing is declared under either spelling.
      rw [not_exists] at hdeclares
      have hnone : ∀ origin content, ¬Declares tree platforms path origin content :=
        fun origin content hmem => hdeclares origin ⟨content, hmem⟩
      rw [scanCandidate_of_undeclared hbroken hnone, Except.ok.injEq] at hscan
      rw [← hscan]
      exact scanCandidate_of_undeclared (fun hmem => hbroken (hmem.congr h.symm))
        (fun origin content hmem => hnone origin content (hmem.congr h.symm))

end Spelling

end AccessWidener
