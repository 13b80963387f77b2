import AccessWidener.Proofs.Directive.History
import AccessWidener.Proofs.Directive.Writing
import AccessWidener.Proofs.Except

/-!
# Canonical Files

A set of directives can be written as a file, which reads back to the same set. The file is
canonical: it has one line for each level that a target is granted, in the order of the targets, and
nothing else. How the set came about does not show, and neither do the comments, the blanks and the
order of the files that went into it. Files that come to the same requests in the same namespace are
therefore rewritten as one file, and a file that was rewritten stays as it is from then on.

A set needs a namespace to be written, and names that a line can hold, as all names do that were read
from a file. Version 2 can express every such set. Version 1 can express those that export nothing,
and refuses the others.

## Main definitions

* `EventStream.deliverAll`: A stream that is taken to its end, or else a fault.
* `DirectiveSet.written`, `DirectiveSet.ofFile`: A set as a file, and a file as a set.
* `rewrite`: A file written anew.
* `DirectiveSet.History.Writable`: A history of requests that files can hold.

## Theorems

* `DirectiveSet.exists_written_iff`: The sets that a version can express.
* `DirectiveSet.Joins.read_back`: A set that was written is read back.
* `rewrite_eq_of_sameLevels`, `rewrite_rewrite`: Rewriting forgets what does not matter, and all of
  it at once.
* `rewrite_canonical`: A set is replayed as a canonical file that reads back to it.
-/

namespace AccessWidener

/-- The state of a sink that has taken a stream to its end, or the fault that ended the delivery. -/
def EventStream.deliverAll {σ : Type} (stream : EventStream) (sink : Sink σ) (start : σ) :
    Except DirectiveFault σ :=
  match stream.deliver sink start with
  | (final, none) => .ok final
  | (_, some fault) => .error fault

namespace DirectiveSet

/-- A set written as a file of a version. -/
def written (set : DirectiveSet) (version : Nat) : Except DirectiveFault Bytes := do
  let final ← set.toStream.deliverAll Writer.visit (← Writer.ofVersion version)
  return final.bytes

/-- A file read as a set of its own. -/
def ofFile (content : Bytes) : Except DirectiveFault DirectiveSet :=
  (readEvents content).deliverAll visit .empty

/-- A history in which all requests come from files, apart from such as a file could hold. -/
def History.Writable : History → Prop
  | empty => True
  | inNamespace _ => True
  | insert before d => before.Writable ∧ d.Writable
  | header before _ => before.Writable
  | read before _ _ => before.Writable
  | union before other => before.Writable ∧ other.Writable

end DirectiveSet

/-- A file written anew from the set that it is read as. -/
def rewrite (version : Nat) (content : Bytes) : Except DirectiveFault Bytes := do
  (← DirectiveSet.ofFile content).written version

theorem EventStream.deliverAll_eq_ok_iff {σ : Type} (stream : EventStream) (sink : Sink σ)
    (start final : σ) :
    stream.deliverAll sink start = .ok final ↔ stream.deliver sink start = (final, none) := by
  rw [deliverAll]
  rcases stream.deliver sink start with ⟨state, _ | fault⟩
  · simp only [Except.ok.injEq, Prod.mk.injEq, and_true]
  · simp only [reduceCtorEq, Prod.mk.injEq, and_false]

namespace DirectiveSet

variable {set : DirectiveSet} {asked : List Directive} {version : Nat} {ns : Namespace}
  {content bytes : Bytes}

/-! ### Writing -/

theorem written_eq_ok_iff (set : DirectiveSet) (version : Nat) (bytes : Bytes) :
    set.written version = .ok bytes ↔ (version = 1 ∨ version = 2) ∧
      ∃ final : Writer, set.toStream.deliver Writer.visit { version } = (final, none) ∧
        final.bytes = bytes := by
  simp only [written, bind_eq_ok_iff, Writer.ofVersion_eq_ok_iff,
    EventStream.deliverAll_eq_ok_iff, pure, Except.pure, Except.ok.injEq, and_assoc, exists_and_left,
    exists_eq_left]

/-- A set with a namespace is written if the version knows the marks of its requests. -/
theorem exists_written (hversion : version = 1 ∨ version = 2) (hns : set.ns = some ns)
    (hknown : ∀ d ∈ set.replayed, d.transitive = true → 2 ≤ version) :
    ∃ bytes, set.written version = .ok bytes := by
  rcases Writer.exists_deliverEvents hknown ("" ++ Writer.headerLine version ns) with
    ⟨final, hfinal⟩
  refine ⟨final.bytes, (written_eq_ok_iff set version _).mpr ⟨hversion, final, ?_, rfl⟩⟩
  rw [toStream_eq_headed, hns]
  exact hfinal

/-- A file that a set was written as holds its namespace and its requests. -/
theorem reflects_of_written (h : set.written version = .ok bytes) (hns : set.ns = some ns) :
    ∃ final : Writer, final.bytes = bytes ∧
      Writer.Reflects version final (.header ns :: set.replayed.map .directive) := by
  rcases (written_eq_ok_iff set version bytes).mp h with ⟨-, final, hdeliver, hbytes⟩
  rw [toStream_eq_headed, hns] at hdeliver
  exact ⟨final, hbytes, Writer.reflects_deliverEvents .fresh hdeliver⟩

/-- A version can express a set with a namespace if it knows the marks of its requests. -/
theorem exists_written_iff (hversion : version = 1 ∨ version = 2) (hns : set.ns = some ns) :
    (∃ bytes, set.written version = .ok bytes) ↔
      ∀ d ∈ set.replayed, d.transitive = true → 2 ≤ version := by
  constructor
  · rintro ⟨bytes, h⟩ d hd
    rcases reflects_of_written h hns with ⟨final, -, hreflects⟩
    exact hreflects.known (Event.directive_mem_cons_iff.mpr hd)
  · exact exists_written hversion hns

/-- Version 1 can express the sets that export nothing. -/
theorem Joins.exists_written_one_iff (h : set.Joins asked) (hns : set.ns = some ns) :
    (∃ bytes, set.written 1 = .ok bytes) ↔
      ∀ target grant, set.get? target = some grant → grant.transitive.isEmpty = true := by
  rw [exists_written_iff (Or.inl rfl) hns]
  simp only [AccessSet.isEmpty_iff]
  constructor
  · intro hknown target grant hget level
    rw [← grantOf_eq_of_get? hget, ← Bool.not_eq_true, h.replayed.transitive]
    exact fun hd => absurd (hknown _ hd rfl) (by decide)
  · -- A request with the mark could only come from a level that is exported.
    rintro hprivate ⟨target, level, _⟩ hd rfl
    have hexported := (h.replayed.transitive target level).mpr hd
    have hget := get?_of_contains (h.access_of_transitive hexported)
    rw [hprivate target _ hget level] at hexported
    cases hexported

/-! ### Reading -/

/-- A file is read as the set of its directives, in its namespace, unless it has a fault. -/
theorem ofFile_eq_ok_iff (content : Bytes) (set : DirectiveSet) :
    ofFile content = .ok set ↔ (readEvents content).fault = none ∧
      (readEvents content).directives.foldl insert { ns := (readEvents content).ns? } = set := by
  have hdeliver : (readEvents content).deliver visit .empty =
      ((readEvents content).directives.foldl insert { ns := (readEvents content).ns? },
        (readEvents content).fault) := by
    rw [readEvents_eq_headed content none, EventStream.deliver_empty, EventStream.ns?_headed,
      EventStream.directives_headed]
    rfl
  rw [ofFile, EventStream.deliverAll_eq_ok_iff, hdeliver, Prod.mk.injEq, and_comm]

theorem ns_ofFile (h : ofFile content = .ok set) : set.ns = (readEvents content).ns? := by
  rcases (ofFile_eq_ok_iff content set).mp h with ⟨-, rfl⟩
  rw [ns_foldl_insert]

/-- A file that is read as a set declares a namespace. -/
theorem exists_ns_ofFile (h : ofFile content = .ok set) : ∃ ns, set.ns = some ns := by
  rcases exists_header_of_readEvents ((ofFile_eq_ok_iff content set).mp h).1 with
    ⟨_, _, _, header, -, -, -, -, hevents⟩
  rw [ns_ofFile h, hevents]
  exact ⟨header.ns, rfl⟩

theorem joins_ofFile (h : ofFile content = .ok set) :
    set.Joins (readEvents content).directives := by
  rcases (ofFile_eq_ok_iff content set).mp h with ⟨-, rfl⟩
  exact (joins_nil rfl).foldl_insert (readEvents content).directives

theorem writable_of_mem_directives {expected : Option Namespace} {d : Directive}
    (h : d ∈ (readEvents content expected).directives) : d.Writable :=
  writable_of_mem_events ((EventStream.mem_directives_iff _ d).mp h)

/-- A set is replayed as requests that a file can hold, if it was made of such. -/
theorem Joins.writable_of_mem_replayed (h : set.Joins asked) (hwritable : ∀ d ∈ asked, d.Writable)
    {d : Directive} (hd : d ∈ set.replayed) : d.Writable := by
  rcases (h.access d.target d.access).mp ((mem_replayed_iff set d).mp hd).1 with ⟨mark, hasked⟩
  exact ⟨(hwritable _ hasked).applies, (hwritable _ hasked).spellable⟩

/-- A set that was written is read back. -/
theorem Joins.read_back (h : set.Joins asked) (hwritable : ∀ d ∈ asked, d.Writable)
    (hns : set.ns = some ns) (hwritten : set.written version = .ok bytes) :
    readHeader bytes = .ok { version, ns } ∧ ofFile bytes = .ok set := by
  have hversion := ((written_eq_ok_iff set version bytes).mp hwritten).1
  rcases reflects_of_written hwritten hns with ⟨final, rfl, hreflects⟩
  have hlines : ∀ d, .directive d ∈ Event.header ns :: set.replayed.map .directive →
      d.Writable := by
    intro d hd
    exact h.writable_of_mem_replayed hwritable (Event.directive_mem_cons_iff.mp hd)
  have hexpected : checkExpected none ns = .ok () := rfl
  rcases Writer.readEvents_of_reflects hversion hreflects List.mem_cons_self hlines hexpected with
    ⟨hheader, hevents⟩
  refine ⟨hheader, (ofFile_eq_ok_iff _ set).mpr ?_⟩
  -- The file gives the requests that the set is replayed as, and they come to the set again.
  have hheaded : readEvents final.bytes none = .headed (some ns) set.replayed := hevents
  rw [hheaded, EventStream.ns?_headed, EventStream.directives_headed]
  refine ⟨rfl, h.replayed.eq_of_sameLevels ((joins_nil rfl).foldl_insert set.replayed)
    (sameLevels_of_mem_iff fun _ => Iff.rfl) ?_⟩
  rw [ns_foldl_insert, hns]

/-- Requests that were accepted in a history of what files can hold can be held by files. -/
theorem History.writable_of_mem_given {h : History} (hwritable : h.Writable) {d : Directive}
    (hd : d ∈ h.given) : d.Writable := by
  -- What was read from a file can be written, whatever the file; the rest is writable by
  -- assumption.
  induction h with
  | empty => cases hd
  | inNamespace ns => cases hd
  | insert before added ih =>
      rcases List.mem_append.mp hd with hd | hd
      · exact ih hwritable.1 hd
      · rw [List.mem_singleton.mp hd]
        exact hwritable.2
  | header before ns ih => exact ih hwritable hd
  | read before content expected ih =>
      rcases List.mem_append.mp hd with hd | hd
      · exact ih hwritable hd
      · split at hd
        · exact writable_of_mem_directives hd
        · cases hd
  | union before other ih ihOther =>
      rcases List.mem_append.mp hd with hd | hd
      · exact ih hwritable.1 hd
      · split at hd
        · exact ihOther hwritable.2 hd
        · cases hd

end DirectiveSet

/-! ### Rewriting -/

section Rewriting

open DirectiveSet

variable {version : Nat} {content content' bytes : Bytes}

theorem rewrite_of_ofFile {set : DirectiveSet} (h : ofFile content = .ok set) :
    rewrite version content = set.written version := by
  rw [rewrite, h]
  rfl

/-- Every file without a fault can be rewritten in version 2. -/
theorem exists_rewrite_two (h : (readEvents content).fault = none) :
    ∃ bytes, rewrite 2 content = .ok bytes := by
  have hset := (ofFile_eq_ok_iff content _).mpr ⟨h, rfl⟩
  rcases exists_ns_ofFile hset with ⟨ns, hns⟩
  rw [rewrite_of_ofFile hset]
  exact exists_written (Or.inr rfl) hns fun _ _ _ => Nat.le_refl 2

/-- Files that come to the same requests in one namespace are rewritten as one file. -/
theorem rewrite_eq_of_sameLevels (h : (readEvents content).fault = none)
    (h' : (readEvents content').fault = none)
    (hns : (readEvents content').ns? = (readEvents content).ns?)
    (hsame : SameLevels (readEvents content).directives (readEvents content').directives)
    (version : Nat) : rewrite version content' = rewrite version content := by
  have hset := (ofFile_eq_ok_iff content _).mpr ⟨h, rfl⟩
  have hset' := (ofFile_eq_ok_iff content' _).mpr ⟨h', rfl⟩
  rw [← ns_ofFile hset, ← ns_ofFile hset'] at hns
  rw [rewrite_of_ofFile hset, rewrite_of_ofFile hset',
    (joins_ofFile hset).eq_of_sameLevels (joins_ofFile hset') hsame hns]

/-- A file that was rewritten is read as the file that it was rewritten from, and stays as it is. -/
theorem rewrite_rewrite (h : rewrite version content = .ok bytes) :
    ofFile bytes = ofFile content ∧ rewrite version bytes = .ok bytes := by
  rcases bind_eq_ok_iff.mp h with ⟨set, hset, hwritten⟩
  rcases exists_ns_ofFile hset with ⟨ns, hns⟩
  have hwritable : ∀ d ∈ (readEvents content).directives, d.Writable :=
    fun d => writable_of_mem_directives
  -- What is written depends on the set alone, and that is the same the second time.
  have hback := ((joins_ofFile hset).read_back hwritable hns hwritten).2
  refine ⟨hback.trans hset.symm, ?_⟩
  rw [rewrite_of_ofFile hback, hwritten]

/-- A set is replayed as a canonical file that reads back to it. A set that has a namespace, and is
    made of requests that files can hold, is written in version 2, and in version 1 if it exports
    nothing; and the file has its namespace and is read as the same set. Files without a fault are
    rewritten in version 2, files that come to the same requests in one namespace are rewritten as
    one file, and rewriting a file that was rewritten changes nothing. -/
theorem rewrite_canonical :
    (∀ (h : History) (ns : Namespace), h.Writable → h.set.ns = some ns →
      (∃ bytes, h.set.written 2 = .ok bytes) ∧
      ((∃ bytes, h.set.written 1 = .ok bytes) ↔
        ∀ target grant, h.set.get? target = some grant → grant.transitive.isEmpty = true) ∧
      ∀ version bytes, h.set.written version = .ok bytes →
        readHeader bytes = .ok { version, ns } ∧ ofFile bytes = .ok h.set) ∧
    (∀ content, (readEvents content).fault = none → ∃ bytes, rewrite 2 content = .ok bytes) ∧
    (∀ content content', (readEvents content).fault = none → (readEvents content').fault = none →
      (readEvents content').ns? = (readEvents content).ns? →
      SameLevels (readEvents content).directives (readEvents content').directives →
      ∀ version, rewrite version content' = rewrite version content) ∧
    ∀ version content bytes, rewrite version content = .ok bytes →
      ofFile bytes = ofFile content ∧ rewrite version bytes = .ok bytes := by
  -- A history joins what was given to it, as reading a file joins its directives.
  refine ⟨fun h ns hwritable hns => ⟨?_, ?_, fun version bytes => ?_⟩, fun content =>
    exists_rewrite_two, fun content content' => rewrite_eq_of_sameLevels,
    fun version content bytes => rewrite_rewrite⟩
  · exact exists_written (Or.inr rfl) hns fun _ _ _ => Nat.le_refl 2
  · exact h.joins_given.exists_written_one_iff hns
  · exact h.joins_given.read_back (fun _ => History.writable_of_mem_given hwritable) hns

/-- Comments, blanks and requests made twice do not show in a file that was rewritten. -/
example : (rewrite 2 (Utf8.encodeString
      "accessWidener v2 srg # a\n\nmutable field b f I\nmutable  field b f I")).toOption =
    some (Utf8.encodeString "accessWidener\tv2\tsrg\nmutable\tfield\tb\tf\tI\n") := by
  decide +kernel

end Rewriting

end AccessWidener
