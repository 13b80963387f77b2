import AccessWidener.Proofs.Directive.Deliveries

/-!
# Looking at Part of a File

A directive file need not be read to its end to learn its version, or its header, and to learn
whether it exports anything it is read to its end only if its version knows exports at all. These
looks agree with each other and with reading the whole file. A shorter look fails only where every
longer one does, and with the same fault; and what it finds is what the longer ones find.

They need not agree on whether there is a fault at all. A file with an unknown namespace has a
version but no header, and one with a broken line has both, though reading it fails. A file of
version 1 exports nothing, whatever else is wrong with it.

## Main definitions

* `record`: A file as a recording holds it, and the fault that ended the reading.

## Theorems

* `record_eq`: A recording holds the namespace and the directives of the file.
* `ns_record_eq_some_iff`: The namespace that reading comes across is the one in the header.
* `readVersion_cases`: A file has one of two versions, or none.
* `containsTransitive_of_old`, `containsTransitive_of_new`: What a detector answers, by the version.
* `previews_agree`: All looks at a file agree.
-/

namespace AccessWidener

/-- A file read by a consumer that records everything, and the fault that ended the reading. -/
def record (content : Bytes) : Recording × Option DirectiveFault :=
  (readEvents content).deliver Recording.visit {}

variable {content : Bytes} {fault : DirectiveFault}

theorem record_eq (content : Bytes) :
    record content = ({ ns := (readEvents content).ns?, directives := (readEvents content).directives },
      (readEvents content).fault) := by
  rw [record, readEvents_eq_headed content none, EventStream.deliver_recording,
    EventStream.ns?_headed, EventStream.directives_headed]
  rfl

/-- Reading a file comes across a namespace exactly if its header can be read. -/
theorem ns_record_eq_some_iff (content : Bytes) (ns : Namespace) :
    (record content).1.ns = some ns ↔ ∃ version, readHeader content = .ok { version, ns } := by
  rw [record_eq]
  cases hheader : readHeader content with
  | error fault =>
      rw [readEvents_of_readHeader_error hheader none]
      refine iff_of_false (Option.some_ne_none ns).symm ?_
      rintro ⟨version, h⟩
      cases h
  | ok header =>
      -- Whatever is below the header, the header comes first.
      rcases readEvents_of_readHeader hheader with ⟨body, hread, -⟩
      rw [hread none rfl]
      constructor
      · intro h
        cases h
        exact ⟨header.version, rfl⟩
      · rintro ⟨version, h⟩
        cases h
        rfl

/-- Nobody who reads a file without a header is given anything but the fault. -/
theorem deliver_of_readHeader_error (h : readHeader content = .error fault) {σ : Type}
    (sink : Sink σ) (start : σ) :
    (readEvents content).deliver sink start = (start, some fault) := by
  rw [readEvents_of_readHeader_error h none]
  rfl

/-! ### Versions and exports -/

theorem supportedVersion_of_readVersion {version : Nat} (h : readVersion content = .ok version) :
    supportedVersion version = true := by
  unfold readVersion at h
  cases hline : headerLine content with
  | error fault =>
      rw [hline] at h
      cases h
  | ok line =>
      rw [hline] at h
      rcases (parseVersion_eq_ok_iff line version).mp h with ⟨-, -, -, -, -, hsupported⟩
      exact hsupported

/-- A file has one of two versions, or no version that is understood. -/
theorem readVersion_cases (content : Bytes) :
    readVersion content = .ok 1 ∨ readVersion content = .ok 2 ∨
      ∃ fault, readVersion content = .error fault := by
  cases hversion : readVersion content with
  | error fault => exact .inr (.inr ⟨fault, rfl⟩)
  | ok version =>
      have hsupported := supportedVersion_of_readVersion hversion
      simp only [supportedVersion, Bool.or_eq_true, decide_eq_true_eq] at hsupported
      rcases hsupported with rfl | rfl
      · exact .inl rfl
      · exact .inr (.inl rfl)

theorem containsTransitive_of_noVersion (h : readVersion content = .error fault) :
    containsTransitive content = .error fault := by
  simp only [containsTransitive, h, bind, Except.bind]

/-- A file of version 1 is not looked at any further. -/
theorem containsTransitive_of_old (h : readVersion content = .ok 1) :
    containsTransitive content = .ok false := by
  simp only [containsTransitive, h, bind, Except.bind]
  rfl

/-- A file of version 2 is read to its end. -/
theorem containsTransitive_of_new (h : readVersion content = .ok 2) :
    containsTransitive content =
      match (readEvents content).fault with
      | some fault => .error fault
      | none => .ok ((readEvents content).directives.any (·.transitive)) := by
  have hany : (readEvents content).events.any Event.isTransitive =
      (readEvents content).directives.any (·.transitive) := by
    rw [EventStream.directives, List.any_filterMap]
    refine congrArg ((readEvents content).events.any ·) (funext fun event => ?_)
    cases event <;> rfl
  simp only [containsTransitive, h, bind, Except.bind, hany]
  rfl

/-- A detector that answers has seen a file of version 1, or has read one of version 2 to its end. -/
theorem containsTransitive_eq_ok_iff (content : Bytes) (answer : Bool) :
    containsTransitive content = .ok answer ↔
      readVersion content = .ok 1 ∧ answer = false ∨
        readVersion content = .ok 2 ∧ (readEvents content).fault = none ∧
          (readEvents content).directives.any (·.transitive) = answer := by
  -- The version decides how much is looked at: nothing more, the whole body, or nothing at all.
  rcases readVersion_cases content with hversion | hversion | ⟨fault, hversion⟩
  · rw [containsTransitive_of_old hversion, hversion]
    simp only [Except.ok.injEq, true_and, Nat.reduceEqDiff, false_and, or_false, eq_comm]
  · rw [containsTransitive_of_new hversion, hversion]
    cases (readEvents content).fault <;>
      simp only [Except.ok.injEq, Nat.reduceEqDiff, reduceCtorEq, false_and, true_and, and_false,
        false_or]
  · rw [containsTransitive_of_noVersion hversion, hversion]
    simp only [reduceCtorEq, false_and, or_false]

/-- A detector that fails has the fault of the version, or that of a file of version 2. -/
theorem containsTransitive_eq_error_iff (content : Bytes) (fault : DirectiveFault) :
    containsTransitive content = .error fault ↔
      readVersion content = .error fault ∨
        readVersion content = .ok 2 ∧ (readEvents content).fault = some fault := by
  rcases readVersion_cases content with hversion | hversion | ⟨other, hversion⟩
  · rw [containsTransitive_of_old hversion, hversion]
    simp only [reduceCtorEq, Except.ok.injEq, Nat.reduceEqDiff, false_and, or_false]
  · rw [containsTransitive_of_new hversion, hversion]
    cases (readEvents content).fault <;>
      simp only [Except.error.injEq, Option.some.injEq, reduceCtorEq, true_and, false_or]
  · rw [containsTransitive_of_noVersion hversion, hversion]
    simp only [Except.error.injEq, reduceCtorEq, false_and, or_false]

/-- All looks at a file agree. Reading it comes across a namespace exactly if its header can be read,
    and it is the namespace of the header; a header has the version that is read on its own. A fault
    of the version is the fault of the header, and a fault of the header is that of the file, of which
    a reader is then given nothing. A detector finds exports in a file of version 2 that is read
    without a fault and has some; it finds none in a file of version 1, whatever else is in it, and in
    one of version 2 that is read without a fault and has none; and otherwise it fails, with the fault
    of the version or, in version 2, that of the file. -/
theorem previews_agree (content : Bytes) :
    (∀ ns, (record content).1.ns = some ns ↔
      ∃ version, readHeader content = .ok { version, ns }) ∧
    (∀ header, readHeader content = .ok header → readVersion content = .ok header.version) ∧
    (∀ fault, readVersion content = .error fault →
      readHeader content = .error fault ∧ (record content).2 = some fault) ∧
    (∀ fault, readHeader content = .error fault → ∀ (σ : Type) (sink : Sink σ) (start : σ),
      (readEvents content).deliver sink start = (start, some fault)) ∧
    (containsTransitive content = .ok true ↔
      readVersion content = .ok 2 ∧ (record content).2 = none ∧
        ∃ d ∈ (record content).1.directives, d.transitive = true) ∧
    (containsTransitive content = .ok false ↔
      readVersion content = .ok 1 ∨
        readVersion content = .ok 2 ∧ (record content).2 = none ∧
          ∀ d ∈ (record content).1.directives, d.transitive = false) ∧
    ∀ fault, containsTransitive content = .error fault ↔
      readVersion content = .error fault ∨
        readVersion content = .ok 2 ∧ (record content).2 = some fault := by
  refine ⟨ns_record_eq_some_iff content, fun header => readVersion_of_readHeader,
    fun fault hversion => ?_, fun fault hheader σ sink start => ?_, ?_, ?_, fun fault => ?_⟩
  · -- Whoever cannot read the version cannot read the header, and nothing is delivered before it.
    have hheader := readHeader_of_readVersion_error hversion
    refine ⟨hheader, ?_⟩
    rw [record, deliver_of_readHeader_error hheader]
  · exact deliver_of_readHeader_error hheader sink start
  · rw [containsTransitive_eq_ok_iff, record_eq]
    -- Version 1 never answers yes, so only the second way is left.
    simp only [Bool.true_eq_false, and_false, false_or, List.any_eq_true]
  · rw [containsTransitive_eq_ok_iff, record_eq]
    simp only [and_true, List.any_eq_false, Bool.not_eq_true]
  · rw [containsTransitive_eq_error_iff, record_eq]

/-- With an unknown namespace there is a version and no header. Version 1 then answers for itself,
    while version 2 has to be read. -/
example : (readVersion (Utf8.encodeString "accessWidener v1 mojang")).toOption = some 1 ∧
    (readHeader (Utf8.encodeString "accessWidener v1 mojang")).toOption = none ∧
    (containsTransitive (Utf8.encodeString "accessWidener v1 mojang\nnonsense")).toOption =
      some false ∧
    (containsTransitive (Utf8.encodeString "accessWidener v2 mojang")).toOption = none := by
  decide +kernel

end AccessWidener
