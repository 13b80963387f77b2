import AccessWidener.ClassPath.Resolver

/-!
# Resolver Sessions

A session owns a resolver from the moment it is built. It is closed in one of two ways: finishing
it reports a failure of the resolver, abandoning it does not. Both finish the resolver once and
hand back what finishing left behind.

A session that is finished is dropped like any other when its lifetime ends, so it remembers that
its resolver was finished, whether or not that went well.

## Main definitions

* `Session.openWith`: A session over a new resolver.
* `Session.close`, `Session.drop`: Finishing the resolver, and the end of a lifetime.
* `Session.finish`, `Session.abandon`: The two ways of closing a session.
* `Session.use`: A computation with a resolver, which is finished on every path.
* `Counted`: A resolver that counts how often it was finished.
* `identityEngine`: An engine whose resolvers take every symbol to itself.
-/

namespace AccessWidener

/-- A resolver in use between two namespaces, and whether it was finished. -/
structure Session (ρ : Type) where
  resolver : ρ
  source : Namespace
  target : Namespace
  finished : Bool := false

namespace Session

variable {ρ : Type}

/-- A session over a resolver that the engine builds. -/
def openWith (engine : Engine ρ) (tree : FileTree) (source target : Namespace)
    (classPath : List Path) : Except MappingFault (Session ρ) := do
  let resolver ← engine.build tree source target classPath
  return { resolver, source, target }

variable [Resolver ρ]

/-- The lookups of a session. -/
def symbols (session : Session ρ) : Symbols :=
  Resolver.symbols session.resolver

/-- Finishes the resolver. It counts as finished even if that fails. -/
def close (session : Session ρ) : Session ρ × Except MappingFault Unit :=
  let (left, result) := Resolver.finish session.resolver
  ({ session with resolver := left, finished := true }, result)

/-- Ends the lifetime of a session, which finishes the resolver unless that was done before. A
    failure to do so is not reported. -/
def drop (session : Session ρ) : Session ρ :=
  if session.finished then session else session.close.1

/-- Closes a session and reports a failure to do so. -/
def finish (session : Session ρ) : ρ × Except MappingFault Unit :=
  let (closed, result) := session.close
  (closed.drop.resolver, result)

/-- Closes a session whose work was given up. A failure to do so is not reported. -/
def abandon (session : Session ρ) : ρ :=
  session.drop.resolver

/-- The result of a computation with the lookups of a session, and the resolver left behind. The
    session is finished after a success and abandoned after a failure. -/
def use {ε α : Type} (session : Session ρ) (teardown : MappingFault → ε)
    (compute : Symbols → Except ε α) : ρ × Except ε α :=
  match compute session.symbols with
  | .error fault => (session.abandon, .error fault)
  | .ok result =>
    match session.finish with
    | (left, .ok ()) => (left, .ok result)
    | (left, .error fault) => (left, .error (teardown fault))

end Session

/-- A resolver together with the number of times it was finished. -/
structure Counted (ρ : Type) where
  resolver : ρ
  finishes : Nat := 0

/-- Finishing a counted resolver is counted, whether or not it fails. -/
instance {ρ : Type} [Resolver ρ] : Resolver (Counted ρ) where
  symbols counted := Resolver.symbols counted.resolver
  finish counted :=
    let (resolver, result) := Resolver.finish counted.resolver
    ({ resolver, finishes := counted.finishes + 1 }, result)

/-- An engine whose resolvers start with a count of zero. -/
def Engine.counted {ρ : Type} (engine : Engine ρ) : Engine (Counted ρ) where
  build tree source target classPath := do
    let resolver ← engine.build tree source target classPath
    return { resolver }

/-- A resolver that takes every symbol to itself, and how finishing it ends. -/
structure IdentityResolver where
  failure : Option MappingFault := none

instance : Resolver IdentityResolver where
  symbols _ := .identity
  finish resolver :=
    (resolver, match resolver.failure with
      | none => .ok ()
      | some fault => .error fault)

/-- An engine whose resolvers take every symbol to itself. -/
def identityEngine (buildFailure finishFailure : Option MappingFault) : Engine IdentityResolver where
  build _ _ _ _ :=
    match buildFailure with
    | none => .ok { failure := finishFailure }
    | some fault => .error fault

end AccessWidener
