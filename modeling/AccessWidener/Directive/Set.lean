import Std.Data.ExtTreeSet
import AccessWidener.Directive.Stream

/-!
# Directive Sets

A directive set holds one grant per target: the levels that anyone asked for, and those of them
that anyone exported. Grants only grow, so the order in which requests arrive does not matter, and
a later narrow request never takes back an earlier wide one. A set may declare the namespace that
its targets are spelled in; it keeps the first one it is given.

## Main definitions

* `Grant`: The levels requested and exported for one target.
* `DirectiveSet`: Grants by target, in target order.
* `DirectiveSet.insert`, `DirectiveSet.union`: Growing a set.
* `DirectiveSet.visit`, `DirectiveSet.toStream`: Collecting a stream, and replaying a set.
-/

namespace AccessWidener

/-- The levels requested for one target and the levels exported for it. -/
structure Grant where
  access : AccessSet := {}
  transitive : AccessSet := {}
deriving DecidableEq, Repr

namespace Grant

/-- The grant of a single request. -/
def ofRequest (access : Access) (transitive : Bool) : Grant where
  access := .singleton access
  transitive := if transitive then .singleton access else .empty

/-- The levels of either grant. -/
def merge (left right : Grant) : Grant where
  access := left.access.union right.access
  transitive := left.transitive.union right.transitive

end Grant

/-- Grants by target, and the namespace that the targets are spelled in. -/
structure DirectiveSet where
  ns : Option Namespace := none
  grants : Std.ExtTreeMap Target Grant := ∅
deriving DecidableEq

namespace DirectiveSet

/-- The set without targets or namespace. -/
def empty : DirectiveSet := {}

/-- The set without targets, spelled in `ns`. -/
def inNamespace (ns : Namespace) : DirectiveSet :=
  { ns := some ns }

/-- The grant of a target. -/
def get? (set : DirectiveSet) (target : Target) : Option Grant :=
  set.grants[target]?

/-- The targets with their grants, in target order. -/
def toList (set : DirectiveSet) : List (Target × Grant) :=
  set.grants.toList

/-- The number of targets. -/
def size (set : DirectiveSet) : Nat :=
  set.grants.size

/-- Whether there are no targets. -/
def isEmpty (set : DirectiveSet) : Bool :=
  set.grants.isEmpty

/-- The classes that targets name as their owner. -/
def owners (set : DirectiveSet) : Std.ExtTreeSet String :=
  .ofList (set.toList.map (·.1.owner))

/-- The set with a grant added to what its target had. -/
def insertGrant (set : DirectiveSet) (target : Target) (grant : Grant) : DirectiveSet :=
  { set with
    grants := set.grants.alter target fun
      | none => some grant
      | some held => some (held.merge grant) }

/-- The set with one more request. -/
def insert (set : DirectiveSet) (d : Directive) : DirectiveSet :=
  set.insertGrant d.target (.ofRequest d.access d.transitive)

/-- The set after a namespace was declared for it. A second declaration has to agree. -/
def declare (set : DirectiveSet) : Option Namespace → Except DirectiveFault DirectiveSet
  | none => .ok set
  | some found =>
    match set.ns with
    | none => .ok { set with ns := some found }
    | some expected =>
      if expected = found then .ok set else .error (.namespaceMismatch expected found)

/-- The grants and the namespace of both sets. -/
def union (set other : DirectiveSet) : Except DirectiveFault DirectiveSet := do
  let declared ← set.declare other.ns
  return other.toList.foldl (fun held entry => held.insertGrant entry.1 entry.2) declared

/-- Collects events: headers declare the namespace, directives are inserted. -/
def visit : Sink DirectiveSet
  | set, .header ns => set.declare (some ns)
  | set, .directive d => .ok (set.insert d)

/-- The set of a list of requests. -/
def ofDirectives (directives : List Directive) : DirectiveSet :=
  directives.foldl insert empty

/-- The requests that make up a grant, one per level. -/
def requests (target : Target) (grant : Grant) : List Directive :=
  grant.access.toList.map fun access =>
    { target, access, transitive := grant.transitive.contains access }

/-- The set as a stream: its namespace, then the requests of each target in target order. -/
def toStream (set : DirectiveSet) : EventStream where
  events := set.ns.toList.map Event.header ++
    (set.toList.flatMap fun entry => requests entry.1 entry.2).map Event.directive

end DirectiveSet

end AccessWidener
