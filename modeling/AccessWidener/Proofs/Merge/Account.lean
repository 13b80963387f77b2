import AccessWidener.Pipeline.Merge
import AccessWidener.Proofs.Directive.Deliveries
import AccessWidener.Proofs.Directive.Grants
import AccessWidener.Proofs.Directive.Headers

/-!
# The Account of a Merge

A merge passes every line of every file through a reader, a filter, a renaming and a set, and stops
at the first of them that objects. Here the same is said as an account, without stages: a list of
all that is wrong, in the order in which a reader of the files would come across it, and a list of
all that is exported. A merge settles the account (`mergeDirectives_eq`): it reports the first thing
on the list of faults, and if there is none, it puts the exports and then the project's own
directives into one set.

The work is in `collect_body`, an induction over the lines of a file. What makes it go through is
that the stages never look back. A line that is dropped or renamed leaves the later lines to the
same stages, and only the set at the end has a state.

## Main definitions

* `settle`: A result unless there are faults, and the first of them if there are.
* `DirectiveFile.directives`, `DirectiveFile.exports`: What a file declares, and what it exports.
* `lineFault?`, `DirectiveFile.faults`, `mergeFaults`: What is wrong, in order.
* `mergeResult`: What a merge without faults gives.

## Theorems

* `collect_body`: The lines of a file, delivered through the stages.
* `mergeFile_eq`, `mergeDirectives_eq`: A file, and a merge, settle their accounts.
-/

namespace AccessWidener

variable {α : Type}

/-- A result, unless there are faults; then the first of them. -/
def settle (faults : List DirectiveFault) (result : α) : Except DirectiveFault α :=
  match faults with
  | [] => .ok result
  | fault :: _ => .error fault

theorem settle_eq_error_iff {faults : List DirectiveFault} {result : α} {fault : DirectiveFault} :
    settle faults result = .error fault ↔ faults.head? = some fault := by
  cases faults with
  | nil => simp only [settle, reduceCtorEq, List.head?_nil]
  | cons first rest => simp only [settle, Except.error.injEq, List.head?_cons, Option.some.injEq]

theorem settle_eq_ok_iff {faults : List DirectiveFault} {result found : α} :
    settle faults result = .ok found ↔ faults = [] ∧ result = found := by
  cases faults with
  | nil => simp only [settle, Except.ok.injEq, true_and]
  | cons first rest => simp only [settle, reduceCtorEq, false_and]

/-! ### Exports -/

/-- A directive as a merge takes it up: under its new names, and only if it is transitive. -/
def Directive.exported? (symbols : Symbols) (d : Directive) : Option Directive :=
  if d.transitive then (symbols.rename? d.target).map fun target => { d with target } else none

namespace DirectiveFile

/-- The directives that a file declares, in order. -/
def directives (file : DirectiveFile) : List Directive :=
  (readEvents file.content).events.filterMap Event.directive?

/-- What a file exports, under its new names. -/
def exports (symbols : Symbols) (file : DirectiveFile) : List Directive :=
  file.directives.filterMap (Directive.exported? symbols)

end DirectiveFile

/-! ### Faults -/

/-- What is wrong with a line below the header: it does not parse, or it is transitive and its
    symbol does not resolve. -/
def lineFault? (symbols : Symbols) (origin : String) (version : Nat) (line : SignificantLine) :
    Option DirectiveFault :=
  match parseDirective version line with
  | .error fault => some fault
  | .ok d =>
    if d.transitive ∧ symbols.rename? d.target = none then some (.unresolved origin d.target)
    else none

section Line

variable {symbols : Symbols} {origin : String} {version : Nat} {line : SignificantLine}

theorem lineFault?_of_error {fault : DirectiveFault}
    (hparse : parseDirective version line = .error fault) :
    lineFault? symbols origin version line = some fault := by
  rw [lineFault?, hparse]

theorem lineFault?_of_miss {d : Directive} (hparse : parseDirective version line = .ok d)
    (hmiss : d.transitive = true ∧ symbols.rename? d.target = none) :
    lineFault? symbols origin version line = some (.unresolved origin d.target) := by
  simp only [lineFault?, hparse, if_pos hmiss]

theorem lineFault?_eq_none {d : Directive} (hparse : parseDirective version line = .ok d)
    (hmiss : ¬(d.transitive = true ∧ symbols.rename? d.target = none)) :
    lineFault? symbols origin version line = none := by
  simp only [lineFault?, hparse, if_neg hmiss]

end Line

/-- What is wrong with a file, from top to bottom: the text, the header, the namespace it declares,
    and then the lines. Behind a text or a header that cannot be made out nothing is looked at. -/
def DirectiveFile.faults (symbols : Symbols) (source : Namespace) (file : DirectiveFile) :
    List DirectiveFault :=
  match decodeText file.content with
  | .error fault => [fault]
  | .ok text =>
    match significantLines text with
    | [] => [.malformed 0 .missingHeader]
    | first :: body =>
      match parseHeader first with
      | .error fault => [fault]
      | .ok header =>
        (if header.ns = source then [] else [.namespaceMismatch source header.ns]) ++
          body.filterMap (lineFault? symbols file.origin header.version)

/-- What is wrong with the directives of the project: they may be spelled in another namespace. -/
def DirectiveSet.localFaults (target : Namespace) (localSet : DirectiveSet) : List DirectiveFault :=
  match localSet.ns with
  | none => []
  | some ns => if target = ns then [] else [.namespaceMismatch target ns]

/-- Everything that is wrong with a merge: file by file, and the project last. -/
def mergeFaults (localSet : DirectiveSet) (files : List DirectiveFile) (symbols : Symbols)
    (source target : Namespace) : List DirectiveFault :=
  files.flatMap (DirectiveFile.faults symbols source) ++ localSet.localFaults target

/-- The exports of all files and the directives of the project in one set. -/
def mergeResult (localSet : DirectiveSet) (files : List DirectiveFile) (symbols : Symbols)
    (target : Namespace) : DirectiveSet :=
  localSet.toList.foldl (fun held entry => held.insertGrant entry.1 entry.2)
    ((files.flatMap (DirectiveFile.exports symbols)).foldl DirectiveSet.insert
      (.inNamespace target))

/-! ### One file -/

/-- The set after a stream was delivered to it. -/
def collect (merged : DirectiveSet) (stream : EventStream) : Except DirectiveFault DirectiveSet :=
  match stream.deliver DirectiveSet.visit merged with
  | (_, some fault) => .error fault
  | (collected, none) => .ok collected

/-- A stream behind the stages of a merge. -/
def EventStream.exported (symbols : Symbols) (source target : Namespace) (origin : String)
    (stream : EventStream) : EventStream :=
  (stream.through onlyTransitive).through (renamingStage symbols source target origin)

variable {symbols : Symbols} {source target : Namespace} {origin : String}

theorem collect_failed (merged : DirectiveSet) (fault : DirectiveFault) :
    collect merged ((EventStream.failed fault).exported symbols source target origin) =
      .error fault := rfl

/-- A header is let through if it declares the right namespace, and declared to the set in the
    other one, where it changes nothing. -/
theorem collect_header {merged : DirectiveSet} (hns : merged.ns = some target) (ns : Namespace)
    (stream : EventStream) :
    collect merged ((stream.cons (.header ns)).exported symbols source target origin) =
      if ns = source then collect merged (stream.exported symbols source target origin)
      else .error (.namespaceMismatch source ns) := by
  -- The merged set is in the target namespace already, so the renamed header changes nothing.
  have hdeclare : merged.declare (some target) = .ok merged := by
    rw [DirectiveSet.declare, hns]
    exact if_pos rfl
  by_cases h : ns = source
  · have hstage : (stream.cons (.header ns)).exported symbols source target origin =
        (stream.exported symbols source target origin).cons (.header target) := by
      simp only [EventStream.exported, EventStream.through, EventStream.cons,
        EventStream.throughEvents, onlyTransitive, renamingStage, if_pos h]
    rw [if_pos h, hstage]
    simp only [collect, EventStream.deliver, EventStream.cons, EventStream.deliverEvents,
      DirectiveSet.visit, hdeclare]
  · rw [if_neg h]
    simp only [collect, EventStream.deliver, EventStream.exported, EventStream.through,
      EventStream.cons, EventStream.throughEvents, onlyTransitive, renamingStage, if_neg h,
      EventStream.failed, EventStream.deliverEvents]

/-- A directive is dropped, refused, or inserted under its new name. -/
theorem collect_directive (merged : DirectiveSet) (d : Directive) (stream : EventStream) :
    collect merged ((stream.cons (.directive d)).exported symbols source target origin) =
      if d.transitive = true ∧ symbols.rename? d.target = none then
        .error (.unresolved origin d.target)
      else collect ((d.exported? symbols).toList.foldl DirectiveSet.insert merged)
        (stream.exported symbols source target origin) := by
  by_cases htransitive : d.transitive = true
  · -- A transitive directive reaches the renaming, which refuses it or passes it on.
    cases hrename : symbols.rename? d.target with
    | none =>
        rw [if_pos ⟨htransitive, rfl⟩]
        simp only [collect, EventStream.deliver, EventStream.exported, EventStream.through,
          EventStream.cons, EventStream.throughEvents, onlyTransitive, if_pos htransitive,
          renamingStage, hrename, EventStream.failed, EventStream.deliverEvents]
    | some renamed =>
        rw [if_neg (fun h => Option.some_ne_none _ h.2)]
        simp only [collect, EventStream.deliver, EventStream.exported, EventStream.through,
          EventStream.cons, EventStream.throughEvents, onlyTransitive, if_pos htransitive,
          renamingStage, hrename, EventStream.deliverEvents, DirectiveSet.visit,
          Directive.exported?, Option.map_some, Option.toList_some, List.foldl_cons,
          List.foldl_nil]
  · -- Any other is dropped before anyone looks up its symbol.
    rw [if_neg (fun h => htransitive h.1)]
    simp only [collect, EventStream.deliver, EventStream.exported, EventStream.through,
      EventStream.cons, EventStream.throughEvents, onlyTransitive, if_neg htransitive,
      Directive.exported?, Option.toList_none, List.foldl_nil]

/-- The lines below a header, delivered through the stages, settle their account. The induction is
    over the lines, with the set left open because each line that gets through adds to it. -/
theorem collect_body (merged : DirectiveSet) (version : Nat) (lines : List SignificantLine) :
    collect merged ((readBody version lines).exported symbols source target origin) =
      settle (lines.filterMap (lineFault? symbols origin version))
        ((((readBody version lines).events.filterMap Event.directive?).filterMap
          (Directive.exported? symbols)).foldl DirectiveSet.insert merged) := by
  induction lines generalizing merged with
  | nil => rfl
  | cons line rest ih =>
      cases hparse : parseDirective version line with
      | error fault =>
          simp only [readBody, hparse, collect_failed, List.filterMap_cons,
            lineFault?_of_error hparse, settle]
      | ok d =>
          simp only [readBody, hparse, collect_directive]
          -- The one thing that stops a line that parses is an exported symbol without a name.
          by_cases hmiss : d.transitive = true ∧ symbols.rename? d.target = none
          · simp only [if_pos hmiss, List.filterMap_cons, lineFault?_of_miss hparse hmiss, settle]
          · simp only [if_neg hmiss, ih, List.filterMap_cons, lineFault?_eq_none hparse hmiss,
              EventStream.cons, Event.directive?]
            cases d.exported? symbols <;> rfl

/-- A file settles its account, if the set it is merged into is spelled in the target namespace. -/
theorem mergeFile_eq {merged : DirectiveSet} (hns : merged.ns = some target)
    (file : DirectiveFile) :
    mergeFile symbols source target merged file =
      settle (file.faults symbols source)
        ((file.exports symbols).foldl DirectiveSet.insert merged) := by
  change collect merged ((readEvents file.content).exported symbols source target file.origin) = _
  -- The account looks at a file in the same three steps as its reader: text, header, lines.
  cases hdecode : decodeText file.content with
  | error fault =>
      simp only [readEvents_of_badText hdecode, hdecode, collect_failed, DirectiveFile.faults,
        settle]
  | ok text =>
      cases hlines : significantLines text with
      | nil =>
          simp only [readEvents_of_noLines hdecode hlines, hdecode, hlines, collect_failed,
            DirectiveFile.faults, settle]
      | cons first body =>
          cases hheader : parseHeader first with
          | error fault =>
              simp only [readEvents_of_badHeader hdecode hlines hheader, collect_failed,
                DirectiveFile.faults, hdecode, hlines, hheader, settle]
          | ok header =>
              have hevents : readEvents file.content =
                  (readBody header.version body).cons (.header header.ns) :=
                readEvents_of_header hdecode hlines hheader rfl
              have hexports : file.exports symbols =
                  ((readBody header.version body).events.filterMap Event.directive?).filterMap
                    (Directive.exported? symbols) := by
                simp only [DirectiveFile.exports, DirectiveFile.directives, hevents,
                  EventStream.cons, List.filterMap_cons, Event.directive?]
              rw [hevents, collect_header hns, collect_body, hexports]
              simp only [DirectiveFile.faults, hdecode, hlines, hheader]
              by_cases hsource : header.ns = source
              · rw [if_pos hsource, if_pos hsource, List.nil_append]
              · rw [if_neg hsource, if_neg hsource]
                rfl

/-! ### All files -/

theorem foldlM_mergeFile {merged : DirectiveSet} (hns : merged.ns = some target)
    (files : List DirectiveFile) :
    files.foldlM (mergeFile symbols source target) merged =
      settle (files.flatMap (DirectiveFile.faults symbols source))
        ((files.flatMap (DirectiveFile.exports symbols)).foldl DirectiveSet.insert merged) := by
  induction files generalizing merged with
  | nil => rfl
  | cons file rest ih =>
      rw [List.foldlM_cons, mergeFile_eq hns, List.flatMap_cons, List.flatMap_cons,
        List.foldl_append]
      -- The next file goes into a set that is still spelled in the target namespace.
      cases hfaults : file.faults symbols source with
      | nil => exact ih ((ns_foldl_insert _ _).trans hns)
      | cons fault more => rfl

theorem union_eq_settle {merged : DirectiveSet} (hns : merged.ns = some target)
    (localSet : DirectiveSet) :
    merged.union localSet = settle (localSet.localFaults target)
      (localSet.toList.foldl (fun held entry => held.insertGrant entry.1 entry.2) merged) := by
  rw [DirectiveSet.union, DirectiveSet.localFaults]
  cases hlocal : localSet.ns with
  | none => rfl
  | some ns =>
      simp only [DirectiveSet.declare, hns]
      -- A local set of another namespace is refused before any of its grants is taken.
      by_cases h : target = ns
      · rw [if_pos h, if_pos h]
        rfl
      · rw [if_neg h, if_neg h]
        rfl

/-- A merge settles its account. -/
theorem mergeDirectives_eq (localSet : DirectiveSet) (files : List DirectiveFile)
    (symbols : Symbols) (source target : Namespace) :
    mergeDirectives localSet files symbols source target =
      settle (mergeFaults localSet files symbols source target)
        (mergeResult localSet files symbols target) := by
  have hstart : (DirectiveSet.inNamespace target).ns = some target := rfl
  rw [mergeDirectives, foldlM_mergeFile hstart, mergeFaults, mergeResult]
  cases files.flatMap (DirectiveFile.faults symbols source) with
  | nil => exact union_eq_settle ((ns_foldl_insert _ _).trans hstart) localSet
  | cons fault more => rfl

end AccessWidener
