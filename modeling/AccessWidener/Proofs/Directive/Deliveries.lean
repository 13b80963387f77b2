import AccessWidener.Directive.Set
import AccessWidener.Proofs.Directive.Headers
import AccessWidener.Proofs.Directive.Reading

/-!
# Streams With One Header

A stream could hold headers and directives in any order. Those that files and sets give do not: they
have a namespace at most once, in front, and then directives (`EventStream.headed`). Such a stream is
known from its namespace, its directives and its fault, and so is what becomes of it. A recording
holds just these; a filter keeps the namespace and drops directives; and a set that takes in the
stream declares the namespace first, and if it can, inserts one directive after the other.

## Main definitions

* `EventStream.ns?`, `EventStream.directives`: What a stream declares and what it brings.
* `EventStream.headed`: A stream with its namespace in front.

## Theorems

* `readEvents_eq_headed`, `toStream_eq_headed`: Files and sets give streams of this form.
* `deliver_recording`, `deliver_set`, `deliver_empty`, `through_onlyTransitive`: What becomes of such
  a stream.
-/

namespace AccessWidener

/-- The namespace that an event declares. -/
def Event.ns? : Event → Option Namespace
  | header ns => some ns
  | directive _ => none

/-- The directive that an event brings. -/
def Event.directive? : Event → Option Directive
  | header _ => none
  | directive d => some d

namespace EventStream

/-- The namespace that a stream declares first. -/
def ns? (stream : EventStream) : Option Namespace :=
  stream.events.findSome? Event.ns?

/-- The directives of a stream, in order. -/
def directives (stream : EventStream) : List Directive :=
  stream.events.filterMap Event.directive?

/-- A stream with its namespace in front, if it declares one, and then its directives. -/
def headed (ns : Option Namespace) (directives : List Directive)
    (fault : Option DirectiveFault := none) : EventStream where
  events := ns.toList.map .header ++ directives.map .directive
  fault := fault

variable {ns : Option Namespace} {directives : List Directive} {fault : Option DirectiveFault}

theorem mem_directives_iff (stream : EventStream) (d : Directive) :
    d ∈ stream.directives ↔ .directive d ∈ stream.events := by
  rw [EventStream.directives, List.mem_filterMap]
  constructor
  · rintro ⟨event, hmem, hevent⟩
    cases event with
    | header ns => cases hevent
    | directive d' =>
        cases hevent
        exact hmem
  · intro hmem
    exact ⟨_, hmem, rfl⟩

theorem directives_headed : (headed ns directives fault).directives = directives := by
  have hdirectives : (directives.map Event.directive).filterMap Event.directive? = directives := by
    rw [List.filterMap_map]
    exact List.filterMap_some
  rw [EventStream.directives, headed, List.filterMap_append, hdirectives]
  cases ns <;> rfl

theorem ns?_headed : (headed ns directives fault).ns? = ns := by
  have hdirectives : (directives.map Event.directive).findSome? Event.ns? = none := by
    rw [List.findSome?_map, List.findSome?_eq_none_iff]
    exact fun d _ => rfl
  rw [EventStream.ns?, headed, List.findSome?_append, hdirectives]
  cases ns <;> rfl

/-! ### Consumers -/

theorem deliverEvents_recording (recording : Recording) (directives : List Directive)
    (fault : Option DirectiveFault) :
    deliverEvents Recording.visit fault recording (directives.map .directive) =
      ({ recording with directives := recording.directives ++ directives }, fault) := by
  induction directives generalizing recording with
  | nil =>
      rw [List.append_nil]
      rfl
  | cons d rest ih =>
      rw [List.map_cons, deliverEvents]
      simp only [Recording.visit, ih, List.append_assoc, List.singleton_append]

/-- A recording of a stream is its namespace and its directives. -/
theorem deliver_recording :
    (headed ns directives fault).deliver Recording.visit {} = ({ ns, directives }, fault) := by
  cases ns <;> exact deliverEvents_recording _ _ _

theorem deliverEvents_set (set : DirectiveSet) (directives : List Directive)
    (fault : Option DirectiveFault) :
    deliverEvents DirectiveSet.visit fault set (directives.map .directive) =
      (directives.foldl DirectiveSet.insert set, fault) := by
  induction directives generalizing set with
  | nil => rfl
  | cons d rest ih =>
      rw [List.map_cons, deliverEvents]
      exact ih (set.insert d)

/-- A set that takes in a stream declares its namespace, and then inserts its directives. A namespace
    that it does not take up leaves it as it was. -/
theorem deliver_set (set : DirectiveSet) :
    (headed ns directives fault).deliver DirectiveSet.visit set =
      match set.declare ns with
      | .ok declared => (directives.foldl DirectiveSet.insert declared, fault)
      | .error refusal => (set, some refusal) := by
  cases ns with
  -- Without a header nothing is declared.
  | none => exact deliverEvents_set set directives fault
  | some found =>
      cases hdeclare : set.declare (some found) with
      | ok declared =>
          simp only [deliver, headed, Option.toList_some, List.map_cons, List.map_nil,
            List.singleton_append, deliverEvents, DirectiveSet.visit, hdeclare, deliverEvents_set]
      | error refusal =>
          simp only [deliver, headed, Option.toList_some, List.map_cons, List.map_nil,
            List.singleton_append, deliverEvents, DirectiveSet.visit, hdeclare]

/-- A fresh set takes in every such stream. -/
theorem deliver_empty : (headed ns directives fault).deliver DirectiveSet.visit .empty =
    (directives.foldl DirectiveSet.insert { ns }, fault) := by
  rw [deliver_set]
  cases ns <;> rfl

/-- A filter keeps the namespace of a stream, and those of its directives that are transitive. -/
theorem through_onlyTransitive : (headed ns directives fault).through onlyTransitive =
    headed ns (directives.filter (·.transitive)) fault := by
  -- The header always passes, so the filter acts on the directives alone.
  have hdirectives : throughEvents onlyTransitive fault (directives.map .directive) =
      { events := (directives.filter (·.transitive)).map .directive, fault } := by
    induction directives with
    | nil => rfl
    | cons d rest ih =>
        rw [List.map_cons, throughEvents, onlyTransitive]
        by_cases htransitive : d.transitive = true
        · simp only [if_pos htransitive, ih, cons, List.filter_cons_of_pos htransitive,
            List.map_cons]
        · simp only [if_neg htransitive, ih, List.filter_cons_of_neg htransitive]
  cases ns with
  | none => exact hdirectives
  | some found =>
      have hhead : (headed (some found) directives fault).through onlyTransitive =
          (throughEvents onlyTransitive fault (directives.map .directive)).cons (.header found) :=
        rfl
      rw [hhead, hdirectives]
      rfl

end EventStream

/-! ### Files and sets -/

/-- A file gives its namespace in front. Without a namespace it gives nothing. -/
theorem exists_readEvents_eq_headed (content : Bytes) (expected : Option Namespace) :
    ∃ ns directives fault, readEvents content expected = .headed ns directives fault ∧
      (ns = none → directives = []) := by
  have hfailed : ∀ {fault}, readEvents content expected = .failed fault →
      ∃ ns directives fault, readEvents content expected = .headed ns directives fault ∧
        (ns = none → directives = []) :=
    fun h => ⟨none, [], some _, h, fun _ => rfl⟩
  cases hheader : readHeader content with
  | error fault => exact hfailed (readEvents_of_readHeader_error hheader expected)
  | ok header =>
      rcases readEvents_of_readHeader hheader with ⟨body, hread, hrefused⟩
      cases hexpected : checkExpected expected header.ns with
      | error fault => exact hfailed (hrefused expected fault hexpected)
      | ok _ =>
          -- Below the header come directives, up to the first line that is none.
          rw [hread expected hexpected]
          rcases parsed_or_refused header.version body with ⟨directives, hparsed⟩ |
            ⟨above, line, below, directives, fault, rfl, habove, hline⟩
          · rw [readBody_of_parsed hparsed]
            exact ⟨some header.ns, directives, none, rfl, fun h => by cases h⟩
          · rw [readBody_of_refused habove hline]
            exact ⟨some header.ns, directives, some fault, rfl, fun h => by cases h⟩

/-- What a file gives is known from its namespace, its directives and its fault. -/
theorem readEvents_eq_headed (content : Bytes) (expected : Option Namespace) :
    readEvents content expected = .headed (readEvents content expected).ns?
      (readEvents content expected).directives (readEvents content expected).fault := by
  rcases exists_readEvents_eq_headed content expected with ⟨ns, directives, fault, hread, -⟩
  rw [hread, EventStream.ns?_headed, EventStream.directives_headed]
  rfl

theorem ns_foldl_insert (directives : List Directive) (set : DirectiveSet) :
    (directives.foldl DirectiveSet.insert set).ns = set.ns := by
  induction directives generalizing set with
  | nil => rfl
  | cons d rest ih =>
      rw [List.foldl_cons, ih]
      rfl

namespace DirectiveSet

/-- The requests that a set is replayed as. -/
def replayed (set : DirectiveSet) : List Directive :=
  set.toList.flatMap fun entry => requests entry.1 entry.2

/-- A set is replayed with its namespace in front, and without a fault. -/
theorem toStream_eq_headed (set : DirectiveSet) : set.toStream = .headed set.ns set.replayed :=
  rfl

end DirectiveSet

end AccessWidener
