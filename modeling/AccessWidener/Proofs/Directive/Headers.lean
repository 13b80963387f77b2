import AccessWidener.Directive.Reader

/-!
# Headers That Were Read

What there is to a header that was read, and what becomes of a line that is none. The version is
found before the rest of the line is looked at, and whatever is wrong with a header, the line is
blamed for it. A file without a header, or with one that its reader did not expect, is refused
before any event; otherwise the header is the first event, and the lines below it follow.

## Theorems

* `parseVersion_eq_ok_iff`, `parseVersion_eq_error`: A version that was read, and one that was not.
* `parseHeader_eq_ok_iff`, `parseHeader_eq_error`: A header that was read, and one that was not.
* `checkExpected_eq_ok_iff`: The headers that a reader is content with.
* `readEvents_of_badHeader`, `readEvents_of_unexpected`, `readEvents_of_header`: The events of a
  file, by its header.
* `readHeader_of_readVersion_error`, `readVersion_of_readHeader`: The version alone, and the header.
* `readEvents_of_readHeader_error`, `readEvents_of_readHeader`: The header alone, and the file.
-/

namespace AccessWidener

variable {line : SignificantLine} {fault : DirectiveFault}

theorem parseVersion_eq_ok_iff (line : SignificantLine) (version : Nat) :
    parseVersion line = .ok version ↔ ∃ word more, line.first = headerMagic ∧
      line.rest = word :: more ∧ versionOfWord? word = some version ∧
        supportedVersion version = true := by
  constructor
  · intro h
    -- Only one way through the tests ends in a version.
    unfold parseVersion at h
    split at h
    · cases h
    · next word more hrest =>
      split at h
      · cases h
      · next hfirst =>
        split at h
        · cases h
        · next found hword =>
          split at h
          · next hsupported =>
            cases h
            exact ⟨word, more, Decidable.not_not.mp hfirst, hrest, hword, hsupported⟩
          · cases h
  · rintro ⟨word, more, hfirst, hrest, hword, hsupported⟩
    simp only [parseVersion, hfirst, hrest, hword, hsupported, ne_eq, not_true, if_false, if_true]

/-- A line without a version is refused with its number. -/
theorem parseVersion_eq_error (h : parseVersion line = .error fault) :
    ∃ cause, fault = .malformed line.number cause := by
  unfold parseVersion at h
  -- Every other way ends in a fault that carries the number of the line.
  split at h
  next =>
    cases h
    exact ⟨_, rfl⟩
  next =>
    split at h
    next =>
      cases h
      exact ⟨_, rfl⟩
    next =>
      split at h
      next =>
        cases h
        exact ⟨_, rfl⟩
      next =>
        split at h
        next => cases h
        next =>
          cases h
          exact ⟨_, rfl⟩

theorem parseHeader_eq_ok_iff (line : SignificantLine) (header : Header) :
    parseHeader line = .ok header ↔ parseVersion line = .ok header.version ∧
      ∃ word token, line.rest = [word, token] ∧ Namespace.ofToken? token = some header.ns := by
  constructor
  · intro h
    unfold parseHeader at h
    -- The version is judged first, then the number of words, then the namespace.
    cases hversion : parseVersion line with
    | error fault =>
        rw [hversion] at h
        cases h
    | ok version =>
        rw [hversion] at h
        simp only [bind, Except.bind] at h
        split at h
        next word token hrest =>
          split at h
          next ns hns =>
            cases h
            exact ⟨rfl, word, token, hrest, hns⟩
          next => cases h
        next => cases h
  · rintro ⟨hversion, word, token, hrest, hns⟩
    simp only [parseHeader, hversion, bind, Except.bind, hrest, hns]

/-- A line that is no header is refused with its number. -/
theorem parseHeader_eq_error (h : parseHeader line = .error fault) :
    ∃ cause, fault = .malformed line.number cause := by
  unfold parseHeader at h
  cases hversion : parseVersion line with
  | error fault =>
      rw [hversion] at h
      cases h
      -- The fault is that of the version.
      exact parseVersion_eq_error hversion
  | ok version =>
      rw [hversion] at h
      simp only [bind, Except.bind] at h
      split at h
      next =>
        split at h
        next => cases h
        next =>
          cases h
          exact ⟨_, rfl⟩
      next =>
        cases h
        exact ⟨_, rfl⟩

/-- A reader that insists on a namespace is content with no other. -/
theorem checkExpected_eq_ok_iff (expected : Option Namespace) (found : Namespace) :
    checkExpected expected found = .ok () ↔ ∀ wanted, expected = some wanted → wanted = found := by
  cases expected with
  | none => simp only [checkExpected, reduceCtorEq, false_implies, implies_true]
  | some wanted =>
      rw [checkExpected]
      split
      next hsame => simp only [hsame, Option.some.injEq, forall_eq']
      next hother => simp only [hother, reduceCtorEq, Option.some.injEq, forall_eq']

theorem checkExpected_of_ne {wanted found : Namespace} (h : wanted ≠ found) :
    checkExpected (some wanted) found = .error (.namespaceMismatch wanted found) := by
  rw [checkExpected, if_neg h]

/-! ### Files -/

section Files

variable {content : Bytes} {expected : Option Namespace} {text : List Char}
  {first : SignificantLine} {body : List SignificantLine} {header : Header}

theorem readEvents_of_badText (hdecode : decodeText content = .error fault) :
    readEvents content expected = .failed fault := by
  simp only [readEvents, hdecode]

theorem readEvents_of_noLines (hdecode : decodeText content = .ok text)
    (hlines : significantLines text = []) :
    readEvents content expected = .failed (.malformed 0 .missingHeader) := by
  simp only [readEvents, hdecode, hlines, eventsOfLines]

theorem readEvents_of_badHeader (hdecode : decodeText content = .ok text)
    (hlines : significantLines text = first :: body) (hheader : parseHeader first = .error fault) :
    readEvents content expected = .failed fault := by
  simp only [readEvents, hdecode, hlines, eventsOfLines, hheader, bind, Except.bind]

theorem readEvents_of_unexpected (hdecode : decodeText content = .ok text)
    (hlines : significantLines text = first :: body) (hheader : parseHeader first = .ok header)
    (hexpected : checkExpected expected header.ns = .error fault) :
    readEvents content expected = .failed fault := by
  simp only [readEvents, hdecode, hlines, eventsOfLines, hheader, hexpected, bind, Except.bind]

theorem readEvents_of_header (hdecode : decodeText content = .ok text)
    (hlines : significantLines text = first :: body) (hheader : parseHeader first = .ok header)
    (hexpected : checkExpected expected header.ns = .ok ()) :
    readEvents content expected = (readBody header.version body).cons (.header header.ns) := by
  simp only [readEvents, hdecode, hlines, eventsOfLines, hheader, hexpected, bind, Except.bind,
    pure, Except.pure]

/-! ### Looking at the header alone -/

/-- A header is read from a line of which the version can be read. -/
theorem readVersion_of_readHeader (h : readHeader content = .ok header) :
    readVersion content = .ok header.version := by
  unfold readHeader at h
  cases hline : headerLine content with
  | error fault =>
      rw [hline] at h
      cases h
  | ok line =>
      rw [hline] at h
      rw [readVersion, hline]
      exact ((parseHeader_eq_ok_iff line header).mp h).1

/-- Where the version cannot be read, neither can the header, and for the same reason. -/
theorem readHeader_of_readVersion_error (h : readVersion content = .error fault) :
    readHeader content = .error fault := by
  unfold readVersion at h
  cases hline : headerLine content with
  | error other =>
      rw [hline] at h
      cases h
      rw [readHeader, hline]
      rfl
  | ok line =>
      rw [hline] at h
      -- The line is there, so it is the version that is at fault, and it is read first for a header
      -- too.
      have hversion : parseVersion line = .error fault := h
      rw [readHeader, hline]
      simp only [bind, Except.bind, parseHeader, hversion]

/-- The first line of a file, and how the file is read by what this line is. -/
theorem headerLine_cases (content : Bytes) :
    (∃ fault, headerLine content = .error fault ∧
      ∀ expected, readEvents content expected = .failed fault) ∨
    ∃ text first body, headerLine content = .ok first ∧ decodeText content = .ok text ∧
      significantLines text = first :: body := by
  -- Without text or without a significant line both readers stop here, at the same fault.
  cases hdecode : decodeText content with
  | error fault =>
      refine Or.inl ⟨fault, ?_, fun expected => readEvents_of_badText hdecode⟩
      rw [headerLine, hdecode]
      rfl
  | ok text =>
      cases hlines : significantLines text with
      | nil =>
          refine Or.inl ⟨_, ?_, fun expected => readEvents_of_noLines hdecode hlines⟩
          simp only [headerLine, hdecode, bind, Except.bind, hlines]
      | cons first body =>
          refine Or.inr ⟨text, first, body, ?_, rfl, hlines⟩
          simp only [headerLine, hdecode, bind, Except.bind, hlines]

/-- A file whose header cannot be read gives no event, and the fault of the header. -/
theorem readEvents_of_readHeader_error (h : readHeader content = .error fault)
    (expected : Option Namespace) : readEvents content expected = .failed fault := by
  unfold readHeader at h
  rcases headerLine_cases content with ⟨other, hline, hevents⟩ |
    ⟨text, first, body, hline, hdecode, hlines⟩
  · rw [hline] at h
    cases h
    exact hevents expected
  · rw [hline] at h
    exact readEvents_of_badHeader hdecode hlines h

/-- A file whose header can be read gives this header and what is below it, unless its reader
    expected another namespace. -/
theorem readEvents_of_readHeader (h : readHeader content = .ok header) :
    ∃ body, (∀ expected, checkExpected expected header.ns = .ok () →
        readEvents content expected = (readBody header.version body).cons (.header header.ns)) ∧
      ∀ expected fault, checkExpected expected header.ns = .error fault →
        readEvents content expected = .failed fault := by
  unfold readHeader at h
  rcases headerLine_cases content with ⟨other, hline, -⟩ |
    ⟨text, first, body, hline, hdecode, hlines⟩
  · rw [hline] at h
    cases h
  · rw [hline] at h
    exact ⟨body, fun expected => readEvents_of_header hdecode hlines h,
      fun expected fault => readEvents_of_unexpected hdecode hlines h⟩

end Files

end AccessWidener
