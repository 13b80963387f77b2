import AccessWidener.Directive.Fault

/-!
# Streams of Directives

Reading a directive file gives its events, a header and then directives, up to the first fault. A
stream keeps both: the events that came before the fault, and the fault. Stages drop, change or
refuse events on the way; a sink takes them in one by one. Whoever refuses an event first ends the
stream there, so a later fault of the stream itself is never seen.

## Main definitions

* `Event`, `EventStream`: What a reader gives.
* `Stage`, `EventStream.through`: Events dropped, changed or refused on the way.
* `onlyTransitive`: The stage that drops the directives private to a file.
* `Sink`, `EventStream.deliver`: Events taken in by a consumer.
* `Recording`: Everything a stream delivered.
-/

namespace AccessWidener

/-- A header or a directive, as met in file order. -/
inductive Event where
  | header (ns : Namespace)
  | directive (directive : Directive)
deriving DecidableEq, Repr

/-- The events before the first fault, and that fault. -/
structure EventStream where
  events : List Event := []
  fault : Option DirectiveFault := none
deriving DecidableEq, Repr

/-- What happens to an event on its way: it is dropped, passed on in some form, or refused. -/
abbrev Stage := Event → Except DirectiveFault (Option Event)

/-- A consumer of events with a state. A refused event leaves the state as it was. -/
abbrev Sink (σ : Type) := σ → Event → Except DirectiveFault σ

namespace EventStream

/-- The stream that fails before its first event. -/
def failed (fault : DirectiveFault) : EventStream :=
  { fault := some fault }

/-- A stream with one more event in front. -/
def cons (event : Event) (stream : EventStream) : EventStream :=
  { stream with events := event :: stream.events }

/-- The events that a stage lets through, up to the first one it refuses. -/
def throughEvents (stage : Stage) (fault : Option DirectiveFault) : List Event → EventStream
  | [] => { fault }
  | event :: rest =>
    match stage event with
    | .error refusal => failed refusal
    | .ok none => throughEvents stage fault rest
    | .ok (some passed) => (throughEvents stage fault rest).cons passed

/-- The stream behind a stage. -/
def through (stream : EventStream) (stage : Stage) : EventStream :=
  throughEvents stage stream.fault stream.events

/-- The state of a sink after the events it took, and the fault that ended the delivery. -/
def deliverEvents {σ : Type} (sink : Sink σ) (fault : Option DirectiveFault) (state : σ) :
    List Event → σ × Option DirectiveFault
  | [] => (state, fault)
  | event :: rest =>
    match sink state event with
    | .error refusal => (state, some refusal)
    | .ok next => deliverEvents sink fault next rest

/-- A stream delivered to a sink. -/
def deliver {σ : Type} (stream : EventStream) (sink : Sink σ) (start : σ) :
    σ × Option DirectiveFault :=
  deliverEvents sink stream.fault start stream.events

end EventStream

/-- Drops the directives that are private to the file that declares them. -/
def onlyTransitive : Stage
  | .header ns => .ok (some (.header ns))
  | .directive d => .ok (if d.transitive then some (.directive d) else none)

/-- Everything that a stream delivered. -/
structure Recording where
  ns : Option Namespace := none
  directives : List Directive := []
deriving DecidableEq, Repr

namespace Recording

/-- Takes every event. A later header replaces an earlier one. -/
def visit : Sink Recording
  | recording, .header ns => .ok { recording with ns := some ns }
  | recording, .directive d => .ok { recording with directives := recording.directives ++ [d] }

end Recording

end AccessWidener
