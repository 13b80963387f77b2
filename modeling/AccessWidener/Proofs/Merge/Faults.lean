import AccessWidener.Proofs.Directive.Headers
import AccessWidener.Proofs.Merge.Account

/-!
# When Merging Fails

A merge fails for four reasons: a file is not well formed, a file declares another namespace than
the one merged from, a transitive directive names a symbol that does not resolve, or the project
declares another namespace than the one merged into. It fails for no other reason, and it reports
the first one that a reader would come across who goes through the files in order, through each of
them from top to bottom, and looks at the project last.

Since directives that are private to a file are dropped before they are renamed, what a symbol
lookup says of them is never asked. That is stated as an equation between the merges under two
lookups that differ in nothing else.

## Main definitions

* `Symbols.Misses`: A target does not resolve.
* `DirectiveFile.Objectionable`: A file cannot be merged.

## Theorems

* `rename?_eq_none_iff`: Renaming fails for targets that do not resolve.
* `faults_eq_nil_iff`: A file is without faults unless it is objectionable.
* `mergeDirectives_fails`: When a merge fails, what it reports, and what it never looks at.
-/

namespace AccessWidener

/-- A target does not resolve: its owner is unknown, or the member itself is. -/
def Symbols.Misses (symbols : Symbols) (target : Target) : Prop :=
  symbols.resolveType target.owner = none ∨
    ∃ kind ref, target = .member kind ref ∧ symbols.resolveMember kind ref = none

theorem Symbols.rename?_eq_none_iff (symbols : Symbols) (target : Target) :
    symbols.rename? target = none ↔ symbols.Misses target := by
  cases target with
  | type owner =>
      simp only [rename?, Misses, Target.owner, Option.map_eq_none_iff, reduceCtorEq, false_and,
        exists_false, or_false]
  | member kind ref =>
      have hmember : (∃ kind' ref', Target.member kind ref = .member kind' ref' ∧
          symbols.resolveMember kind' ref' = none) ↔ symbols.resolveMember kind ref = none := by
        constructor
        · rintro ⟨kind', ref', heq, hnone⟩
          cases heq
          exact hnone
        · intro hnone
          exact ⟨kind, ref, rfl, hnone⟩
      rw [Misses, hmember, rename?]
      -- The owner is looked up first, and the member only if the owner is known.
      cases howner : symbols.resolveType ref.owner with
      | none => exact iff_of_true rfl (Or.inl howner)
      | some owner =>
          rw [Target.owner, howner]
          cases hsignature : symbols.resolveMember kind ref with
          | none => exact iff_of_true rfl (Or.inr rfl)
          | some signature =>
              refine iff_of_false (Option.some_ne_none _) ?_
              rintro (h | h) <;> cases h

/-- A file cannot be merged: it is not well formed, it declares another namespace, or it exports a
    symbol that does not resolve. -/
def DirectiveFile.Objectionable (symbols : Symbols) (source : Namespace) (file : DirectiveFile) :
    Prop :=
  (readEvents file.content).fault ≠ none ∨
    (∃ header, readHeader file.content = .ok header ∧ header.ns ≠ source) ∨
    ∃ d ∈ file.directives, d.transitive = true ∧ symbols.Misses d.target

section Body

variable {symbols : Symbols} {origin : String} {version : Nat}

/-- The directives of the lines below a header. -/
def bodyDirectives (version : Nat) (lines : List SignificantLine) : List Directive :=
  (readBody version lines).events.filterMap Event.directive?

theorem bodyDirectives_cons {line : SignificantLine} {d : Directive}
    (h : parseDirective version line = .ok d) (rest : List SignificantLine) :
    bodyDirectives version (line :: rest) = d :: bodyDirectives version rest := by
  simp only [bodyDirectives, readBody, h, EventStream.cons, List.filterMap_cons, Event.directive?]

/-- Lines are without faults if they parse and every symbol that they export resolves. -/
theorem filterMap_lineFault?_eq_nil_iff (lines : List SignificantLine) :
    lines.filterMap (lineFault? symbols origin version) = [] ↔
      (readBody version lines).fault = none ∧
        ∀ d ∈ bodyDirectives version lines, d.transitive = true → ¬symbols.Misses d.target := by
  induction lines with
  | nil =>
      refine iff_of_true rfl ⟨rfl, fun d hmem => ?_⟩
      cases hmem
  | cons line rest ih =>
      cases hparse : parseDirective version line with
      | error fault =>
          -- Both sides fail: the account has the fault, and so has the stream.
          simp only [List.filterMap_cons, lineFault?_of_error hparse, readBody, hparse,
            EventStream.failed, reduceCtorEq, false_and]
      | ok d =>
          rw [bodyDirectives_cons hparse, List.forall_mem_cons, ← symbols.rename?_eq_none_iff]
          have hfault :
              (readBody version (line :: rest)).fault = (readBody version rest).fault := by
            simp only [readBody, hparse, EventStream.cons]
          rw [hfault]
          by_cases hmiss : d.transitive = true ∧ symbols.rename? d.target = none
          · -- The line itself is the exported symbol that has no name.
            rw [List.filterMap_cons, lineFault?_of_miss hparse hmiss]
            refine iff_of_false (List.cons_ne_nil _ _) (fun h => ?_)
            exact h.2.1 hmiss.1 hmiss.2
          · rw [List.filterMap_cons, lineFault?_eq_none hparse hmiss, ih]
            constructor
            · rintro ⟨hbody, hrest⟩
              exact ⟨hbody, fun ht hm => hmiss ⟨ht, hm⟩, hrest⟩
            · rintro ⟨hbody, -, hrest⟩
              exact ⟨hbody, hrest⟩

/-- If the first thing wrong with lines is an unresolved symbol, one of them exports it. -/
theorem mem_of_head?_lineFault? {lines : List SignificantLine} {named : String} {target : Target}
    (h : (lines.filterMap (lineFault? symbols origin version)).head? =
      some (.unresolved named target)) :
    named = origin ∧ ∃ d ∈ bodyDirectives version lines,
      d.transitive = true ∧ d.target = target ∧ symbols.Misses target := by
  induction lines with
  | nil => cases h
  | cons line rest ih =>
      cases hparse : parseDirective version line with
      | error fault =>
          -- The parser of a line knows no symbols.
          rw [List.filterMap_cons, lineFault?_of_error hparse, List.head?_cons,
            Option.some.injEq] at h
          rw [h, parseDirective] at hparse
          split at hparse <;> cases hparse
      | ok d =>
          rw [bodyDirectives_cons hparse]
          by_cases hmiss : d.transitive = true ∧ symbols.rename? d.target = none
          · rw [List.filterMap_cons, lineFault?_of_miss hparse hmiss, List.head?_cons] at h
            cases h
            exact ⟨rfl, d, List.mem_cons_self, hmiss.1, rfl,
              (symbols.rename?_eq_none_iff _).mp hmiss.2⟩
          · rw [List.filterMap_cons, lineFault?_eq_none hparse hmiss] at h
            rcases ih h with ⟨hnamed, d', hmem, hrest⟩
            exact ⟨hnamed, d', List.mem_cons_of_mem _ hmem, hrest⟩

end Body

theorem parseHeader_ne_unresolved (line : SignificantLine) (origin : String) (target : Target) :
    parseHeader line ≠ .error (.unresolved origin target) := by
  intro h
  rcases parseHeader_eq_error h with ⟨cause, hcause⟩
  cases hcause

namespace DirectiveFile

variable {symbols : Symbols} {source : Namespace}

/-- A file whose header can be made out, as its header and the lines below. -/
theorem parts_of_header {file : DirectiveFile} {text : List Char} {first : SignificantLine}
    {body : List SignificantLine} {header : Header} (hdecode : decodeText file.content = .ok text)
    (hlines : significantLines text = first :: body) (hheader : parseHeader first = .ok header) :
    readHeader file.content = .ok header ∧
      (readEvents file.content).fault = (readBody header.version body).fault ∧
      file.directives = bodyDirectives header.version body := by
  have hevents : readEvents file.content =
      (readBody header.version body).cons (.header header.ns) :=
    readEvents_of_header hdecode hlines hheader rfl
  -- Header and events are read from the same first line.
  have hline : headerLine file.content = .ok first := by
    simp only [headerLine, hdecode, bind, Except.bind, hlines]
  refine ⟨?_, ?_, ?_⟩
  · rw [readHeader, hline]
    exact hheader
  · rw [hevents, EventStream.cons]
  · simp only [directives, hevents, EventStream.cons, List.filterMap_cons, Event.directive?,
      bodyDirectives]

/-- A file is without faults unless it is objectionable. -/
theorem faults_eq_nil_iff (file : DirectiveFile) :
    file.faults symbols source = [] ↔ ¬file.Objectionable symbols source := by
  rw [Objectionable, not_or, not_or, Decidable.not_not]
  cases hdecode : decodeText file.content with
  | error fault =>
      simp only [faults, hdecode, readEvents_of_badText hdecode, EventStream.failed, reduceCtorEq,
        false_and]
  | ok text =>
      cases hlines : significantLines text with
      | nil =>
          simp only [faults, hdecode, hlines, readEvents_of_noLines hdecode hlines,
            EventStream.failed, reduceCtorEq, false_and]
      | cons first body =>
          cases hheader : parseHeader first with
          | error fault =>
              have hevents : readEvents file.content = .failed fault :=
                readEvents_of_badHeader hdecode hlines hheader
              simp only [faults, hdecode, hlines, hheader, hevents, EventStream.failed,
                reduceCtorEq, false_and]
          | ok header =>
              -- Only with a header is there anything to compare: its namespace, and the lines
              -- below.
              rcases parts_of_header hdecode hlines hheader with ⟨hread, hfault, hdirectives⟩
              have hfaults : file.faults symbols source =
                  (if header.ns = source then [] else [.namespaceMismatch source header.ns]) ++
                    body.filterMap (lineFault? symbols file.origin header.version) := by
                simp only [faults, hdecode, hlines, hheader]
              have hheaders : (∃ found, (.ok header : Except DirectiveFault Header) = .ok found ∧
                  found.ns ≠ source) ↔ header.ns ≠ source := by
                constructor
                · rintro ⟨found, hfound, hne⟩
                  cases hfound
                  exact hne
                · intro hne
                  exact ⟨header, rfl, hne⟩
              rw [hfaults, List.append_eq_nil_iff, filterMap_lineFault?_eq_nil_iff, hread, hfault,
                hdirectives, hheaders, Decidable.not_not]
              -- What is left to compare is the namespace on both sides.
              by_cases hns : header.ns = source
              · simp only [hns, if_true, true_and, not_exists, not_and]
              · simp only [hns, if_false, reduceCtorEq, false_and, and_false]

/-- If the first thing wrong with a file is an unresolved symbol, the file exports it. -/
theorem mem_of_head?_faults {file : DirectiveFile} {named : String} {target : Target}
    (h : (file.faults symbols source).head? = some (.unresolved named target)) :
    named = file.origin ∧ ∃ d ∈ file.directives,
      d.transitive = true ∧ d.target = target ∧ symbols.Misses target := by
  cases hdecode : decodeText file.content with
  | error fault =>
      simp only [faults, hdecode, List.head?_cons, Option.some.injEq] at h
      rw [h, decodeText] at hdecode
      split at hdecode <;> cases hdecode
  | ok text =>
      cases hlines : significantLines text with
      | nil =>
          simp only [faults, hdecode, hlines, List.head?_cons, Option.some.injEq,
            reduceCtorEq] at h
      | cons first body =>
          cases hheader : parseHeader first with
          | error fault =>
              simp only [faults, hdecode, hlines, hheader, List.head?_cons, Option.some.injEq] at h
              rw [h] at hheader
              -- A fault of the header is no unresolved symbol.
              exact absurd hheader (parseHeader_ne_unresolved first named target)
          | ok header =>
              rw [(parts_of_header hdecode hlines hheader).2.2]
              simp only [faults, hdecode, hlines, hheader] at h
              -- A wrong namespace would have come first.
              by_cases hns : header.ns = source
              · rw [if_pos hns, List.nil_append] at h
                exact mem_of_head?_lineFault? h
              · rw [if_neg hns] at h
                cases h

end DirectiveFile

/-! ### What is never looked at -/

theorem throughEvents_congr {stage stage' : Stage} {events : List Event}
    (h : ∀ event ∈ events, stage event = stage' event) (fault : Option DirectiveFault) :
    EventStream.throughEvents stage fault events =
      EventStream.throughEvents stage' fault events := by
  induction events with
  | nil => rfl
  | cons event rest ih =>
      rw [List.forall_mem_cons] at h
      simp only [EventStream.throughEvents, h.1, ih h.2]

/-- Behind the filter there are only headers and transitive directives. -/
theorem mem_throughEvents_onlyTransitive {events : List Event} {fault : Option DirectiveFault}
    {d : Directive}
    (h : .directive d ∈ (EventStream.throughEvents onlyTransitive fault events).events) :
    .directive d ∈ events ∧ d.transitive = true := by
  induction events with
  | nil => cases h
  | cons event rest ih =>
      -- The filter sees each event on its own, and never stops the stream.
      cases event with
      | header ns =>
          rcases List.mem_cons.mp h with heq | h
          · cases heq
          · exact ⟨List.mem_cons_of_mem _ (ih h).1, (ih h).2⟩
      | directive d' =>
          by_cases htransitive : d'.transitive = true
          · simp only [EventStream.throughEvents, onlyTransitive, if_pos htransitive,
              EventStream.cons] at h
            rcases List.mem_cons.mp h with heq | h
            · cases heq
              exact ⟨List.mem_cons_self, htransitive⟩
            · exact ⟨List.mem_cons_of_mem _ (ih h).1, (ih h).2⟩
          · simp only [EventStream.throughEvents, onlyTransitive, if_neg htransitive] at h
            exact ⟨List.mem_cons_of_mem _ (ih h).1, (ih h).2⟩

theorem DirectiveFile.mem_directives_iff (file : DirectiveFile) (d : Directive) :
    d ∈ file.directives ↔ .directive d ∈ (readEvents file.content).events :=
  (readEvents file.content).mem_directives_iff d

/-- Lookups that agree on what a file exports make no difference to its merge. -/
theorem mergeFile_congr {symbols symbols' : Symbols} {file : DirectiveFile}
    (h : ∀ d ∈ file.directives, d.transitive = true →
      symbols'.rename? d.target = symbols.rename? d.target)
    (source target : Namespace) (merged : DirectiveSet) :
    mergeFile symbols' source target merged file = mergeFile symbols source target merged file := by
  have hstream : exportedStream symbols' source target file =
      exportedStream symbols source target file := by
    refine throughEvents_congr (fun event hmem => ?_) _
    cases event with
    | header ns => rfl
    | directive d =>
        -- The renaming only ever sees what the filter let through.
        rcases mem_throughEvents_onlyTransitive hmem with ⟨hdeclared, htransitive⟩
        simp only [renamingStage, h d ((file.mem_directives_iff d).mpr hdeclared) htransitive]
  rw [mergeFile, hstream, mergeFile]

theorem foldlM_mergeFile_congr {symbols symbols' : Symbols} {files : List DirectiveFile}
    (h : ∀ file ∈ files, ∀ d ∈ file.directives, d.transitive = true →
      symbols'.rename? d.target = symbols.rename? d.target)
    (source target : Namespace) (merged : DirectiveSet) :
    files.foldlM (mergeFile symbols' source target) merged =
      files.foldlM (mergeFile symbols source target) merged := by
  induction files generalizing merged with
  | nil => rfl
  | cons file rest ih =>
      rw [List.forall_mem_cons] at h
      rw [List.foldlM_cons, List.foldlM_cons, mergeFile_congr h.1]
      cases mergeFile symbols source target merged file with
      | error fault => rfl
      | ok next => exact ih h.2 next

/-! ### The whole merge -/

theorem localFaults_eq_nil_iff (target : Namespace) (localSet : DirectiveSet) :
    localSet.localFaults target = [] ↔ ¬∃ ns, localSet.ns = some ns ∧ ns ≠ target := by
  rw [DirectiveSet.localFaults]
  cases hns : localSet.ns with
  | none => simp only [reduceCtorEq, false_and, exists_false, not_false_eq_true]
  | some ns =>
      by_cases h : target = ns
      · simp only [h, if_true, Option.some.injEq, exists_eq_left', ne_eq, not_true_eq_false,
          not_false_eq_true]
      · simp only [h, if_false, reduceCtorEq, Option.some.injEq, exists_eq_left', ne_eq,
          Ne.symm h, not_false_eq_true, not_true_eq_false]

/-- A merge has no fault exactly if no file and not the project gives one. -/
theorem mergeFaults_eq_nil_iff (localSet : DirectiveSet) (files : List DirectiveFile)
    (symbols : Symbols) (source target : Namespace) :
    mergeFaults localSet files symbols source target = [] ↔
      ¬((∃ file ∈ files, file.Objectionable symbols source) ∨
        ∃ ns, localSet.ns = some ns ∧ ns ≠ target) := by
  rw [mergeFaults, List.append_eq_nil_iff, localFaults_eq_nil_iff, not_or,
    List.flatMap_eq_nil_iff]
  simp only [DirectiveFile.faults_eq_nil_iff, not_exists, not_and]

/-- When merging fails. The fault reported is the first one of the account, in which the faults of
    each file come in file order and that of the project last. There is one exactly if some file
    cannot be merged or the project declares another namespace. An unresolved symbol is reported as
    the file spells it, with the origin of the file, and only if the file exports it. What a lookup
    says of directives that are not transitive has no influence on the outcome. -/
theorem mergeDirectives_fails (localSet : DirectiveSet) (files : List DirectiveFile)
    (symbols : Symbols) (source target : Namespace) :
    (∀ fault, mergeDirectives localSet files symbols source target = .error fault ↔
      (mergeFaults localSet files symbols source target).head? = some fault) ∧
    ((∃ fault, mergeDirectives localSet files symbols source target = .error fault) ↔
      (∃ file ∈ files, (readEvents file.content).fault ≠ none ∨
        (∃ header, readHeader file.content = .ok header ∧ header.ns ≠ source) ∨
        ∃ d ∈ file.directives, d.transitive = true ∧ symbols.Misses d.target) ∨
      ∃ ns, localSet.ns = some ns ∧ ns ≠ target) ∧
    (∀ origin unknown,
      mergeDirectives localSet files symbols source target = .error (.unresolved origin unknown) →
        ∃ file ∈ files, origin = file.origin ∧ ∃ d ∈ file.directives,
          d.transitive = true ∧ d.target = unknown ∧ symbols.Misses unknown) ∧
    (∀ symbols' : Symbols,
      (∀ file ∈ files, ∀ d ∈ file.directives, d.transitive = true →
        symbols'.rename? d.target = symbols.rename? d.target) →
      mergeDirectives localSet files symbols' source target =
        mergeDirectives localSet files symbols source target) := by
  refine ⟨fun fault => ?_, ?_, fun origin unknown h => ?_, fun symbols' h => ?_⟩
  · rw [mergeDirectives_eq, settle_eq_error_iff]
  · -- Failing means that the account is not empty.
    have hhead : (∃ fault, (mergeFaults localSet files symbols source target).head? =
        some fault) ↔ mergeFaults localSet files symbols source target ≠ [] := by
      cases mergeFaults localSet files symbols source target with
      | nil => simp only [List.head?_nil, reduceCtorEq, exists_false, ne_eq, not_true_eq_false]
      | cons first rest =>
          simp only [List.head?_cons, Option.some.injEq, exists_eq', ne_eq, reduceCtorEq,
            not_false_eq_true]
    simp only [mergeDirectives_eq, settle_eq_error_iff]
    rw [hhead]
    exact (not_congr (mergeFaults_eq_nil_iff localSet files symbols source target)).trans
      Classical.not_not
  · rw [mergeDirectives_eq, settle_eq_error_iff, mergeFaults, List.head?_append] at h
    -- The project has no symbols to resolve, so the fault is that of a file.
    rcases Option.or_eq_some_iff.mp h with hfiles | ⟨-, hlocal⟩
    · rw [List.head?_flatMap] at hfiles
      rcases List.exists_of_findSome?_eq_some hfiles with ⟨file, hmem, hfile⟩
      exact ⟨file, hmem, DirectiveFile.mem_of_head?_faults hfile⟩
    · rw [DirectiveSet.localFaults] at hlocal
      split at hlocal
      next => cases hlocal
      next => split at hlocal <;> cases hlocal
  · -- Lookups are made for exported lines only.
    rw [mergeDirectives, foldlM_mergeFile_congr h, mergeDirectives]

end AccessWidener
