import AccessWidener.Pipeline.Processor

/-!
# Tearing Resolvers Down

A resolver that was built is finished, once, whichever way the work with it ends. A session may be
closed after its work succeeded, and is dropped afterwards; or it may be dropped because the work
was given up; and finishing may fail in either case. None of this finishes a resolver twice, because
a session is marked before anything else can happen to it (`drop_close`).

Finishing is counted by the resolver itself. `Engine.counted` replaces the resolvers of an engine by
counting ones, and since nothing else about them is different, a merge with the counting engine is
the merge with the engine, with a number in what it leaves behind (`mergedWith_counted`).

## Main definitions

* `Session.counted`, `Processor.counted`: Sessions and processors with counting resolvers.
* `Processor.Builds`, `Processor.builds`: What a merge builds, and how often.
* `Processor.Ending`: The ways in which a merge ends.

## Theorems

* `finish_counted`, `abandon_counted`, `use_counted`: A session finishes its resolver once.
* `openSession_cases`, `ending_mergedWith`: How a merge begins, and how it ends.
* `mergedWith_counted`: Counting changes nothing but the count.
* `resolver_finished_once`: As many resolvers are finished as were built.
-/

namespace AccessWidener

/-! ### Sessions -/

namespace Session

variable {ρ ε α : Type} (session : Session ρ)

/-- The same session with a count of zero. -/
def counted : Session (Counted ρ) where
  resolver := { resolver := session.resolver }
  source := session.source
  target := session.target
  finished := session.finished

/-- A new session is open, and owns what the engine built. -/
theorem openWith_eq (engine : Engine ρ) (tree : FileTree) (source target : Namespace)
    (classPath : List Path) :
    openWith engine tree source target classPath =
      (engine.build tree source target classPath).map ({ resolver := ·, source, target }) := by
  unfold openWith
  cases engine.build tree source target classPath <;> rfl

/-- A counting engine builds what the engine does, and starts counting. -/
theorem build_counted (engine : Engine ρ) (tree : FileTree) (source target : Namespace)
    (classPath : List Path) :
    engine.counted.build tree source target classPath =
      (engine.build tree source target classPath).map ({ resolver := · }) := by
  simp only [Engine.counted]
  cases engine.build tree source target classPath <;> rfl

/-- A session over a counting resolver is one over the resolver that the engine builds. -/
theorem openWith_counted (engine : Engine ρ) (tree : FileTree) (source target : Namespace)
    (classPath : List Path) :
    openWith engine.counted tree source target classPath =
      (openWith engine tree source target classPath).map counted := by
  rw [openWith_eq, openWith_eq, build_counted]
  cases engine.build tree source target classPath <;> rfl

variable [Resolver ρ]

/-- A session that was closed is not finished again when it is dropped. -/
theorem drop_close : session.close.1.drop = session.close.1 :=
  if_pos rfl

/-- Finishing a session finishes its resolver, and dropping it then does nothing. -/
theorem finish_eq : session.finish = Resolver.finish session.resolver := by
  -- Closing marks the session, whatever becomes of finishing, and a marked one is only dropped.
  unfold finish
  simp only [drop_close]
  rfl

/-- Abandoning an open session finishes its resolver too. -/
theorem abandon_eq (hopen : session.finished = false) :
    session.abandon = (Resolver.finish session.resolver).1 := by
  rw [abandon, drop, hopen, if_neg Bool.false_ne_true]
  rfl

theorem finish_counted : session.counted.finish = (⟨session.finish.1, 1⟩, session.finish.2) := by
  rw [finish_eq, finish_eq]
  rfl

theorem abandon_counted (hopen : session.finished = false) :
    session.counted.abandon = ⟨session.abandon, 1⟩ := by
  rw [abandon_eq session hopen, abandon_eq session.counted hopen]
  rfl

/-- A computation with the lookups of an open session finishes its resolver once, whether or not the
    computation or finishing fails. -/
theorem use_counted (hopen : session.finished = false) (teardown : MappingFault → ε)
    (compute : Symbols → Except ε α) :
    session.counted.use teardown compute =
      (⟨(session.use teardown compute).1, 1⟩, (session.use teardown compute).2) := by
  have hsymbols : session.counted.symbols = session.symbols := rfl
  -- The lookups are the same, and so the computation goes the same way for both sessions.
  unfold use
  rw [hsymbols, finish_counted]
  cases compute session.symbols with
  | error fault => exact Prod.ext (abandon_counted session hopen) rfl
  | ok result =>
      cases hfinish : session.finish with
      | mk left outcome =>
          cases outcome with
          | error fault => rfl
          | ok _ => rfl

end Session

/-! ### Merging -/

namespace Processor

variable {ρ : Type} (processor : Processor ρ) (tree : FileTree)

/-- The same processor with an engine whose resolvers count. -/
def counted : Processor (Counted ρ) where
  settings := processor.settings
  environment := processor.environment
  engine := processor.engine.counted
  files := processor.files
  localSet := processor.localSet

/-- The environment lists the archives of the source namespace, and the engine builds a resolver
    from them. -/
def Builds (resolver : ρ) : Prop :=
  ∃ classPath, processor.environment.namespaceJars processor.settings.source = .ok classPath ∧
    processor.engine.build tree processor.settings.source processor.settings.target classPath =
      .ok resolver

/-- How many resolvers a merge builds. -/
def builds : Nat :=
  match processor.environment.namespaceJars processor.settings.source with
  | .error _ => 0
  | .ok classPath =>
    match processor.engine.build tree processor.settings.source processor.settings.target
        classPath with
    | .error _ => 0
    | .ok _ => 1

/-- The sessions of a counting processor are those of the processor. -/
theorem openSession_counted :
    processor.counted.openSession tree = (processor.openSession tree).map Session.counted := by
  unfold openSession
  have hjars : processor.counted.environment.namespaceJars processor.counted.settings.source =
      processor.environment.namespaceJars processor.settings.source := rfl
  rw [hjars]
  cases processor.environment.namespaceJars processor.settings.source with
  | error fault => rfl
  | ok classPath =>
      have hsession := Session.openWith_counted processor.engine tree processor.settings.source
        processor.settings.target classPath
      simp only [counted, hsession]
      cases Session.openWith processor.engine tree processor.settings.source
        processor.settings.target classPath <;> rfl

variable {processor tree}

/-- A processor for which a resolver can be built opens a session over it. -/
theorem Builds.openSession {resolver : ρ} (h : processor.Builds tree resolver) :
    processor.openSession tree = .ok
      { resolver, source := processor.settings.source, target := processor.settings.target } := by
  rcases h with ⟨classPath, hjars, hbuild⟩
  simp only [Processor.openSession, hjars, Session.openWith_eq, hbuild, Except.map]

variable (processor tree) [Resolver ρ]

/-- The ways in which a merge ends: what is left behind of the resolver if one was built, and the
    result. The fault of a merge hides that of finishing its resolver. -/
inductive Ending : Option ρ → Except Fault DirectiveSet → Prop where
  | unlisted {fault : EnvironmentFault}
      (hjars : processor.environment.namespaceJars processor.settings.source = .error fault) :
      Ending none (.error (.environment fault))
  | unbuilt {classPath : List Path} {fault : MappingFault}
      (hjars : processor.environment.namespaceJars processor.settings.source = .ok classPath)
      (hbuild : processor.engine.build tree processor.settings.source processor.settings.target
        classPath = .error fault) :
      Ending none (.error (.mapping fault))
  | unmerged {resolver left : ρ} {fault : Fault} {outcome : Except MappingFault Unit}
      (hbuilds : processor.Builds tree resolver)
      (hmerge : processor.mergeUnder (Resolver.symbols resolver) = .error fault)
      (hfinish : Resolver.finish resolver = (left, outcome)) :
      Ending (some left) (.error fault)
  | unfinished {resolver left : ρ} {found : DirectiveSet} {fault : MappingFault}
      (hbuilds : processor.Builds tree resolver)
      (hmerge : processor.mergeUnder (Resolver.symbols resolver) = .ok found)
      (hfinish : Resolver.finish resolver = (left, .error fault)) :
      Ending (some left) (.error (.mapping fault))
  | finished {resolver left : ρ} {found : DirectiveSet} (hbuilds : processor.Builds tree resolver)
      (hmerge : processor.mergeUnder (Resolver.symbols resolver) = .ok found)
      (hfinish : Resolver.finish resolver = (left, .ok ())) :
      Ending (some left) (.ok found)

/-- A processor opens a session over a resolver that it built, or has built none and says why. -/
theorem openSession_cases :
    (∃ resolver, processor.Builds tree resolver ∧ processor.builds tree = 1) ∨
      ∃ fault, processor.Ending tree none (.error fault) ∧ processor.builds tree = 0 ∧
        processor.openSession tree = .error fault := by
  cases hjars : processor.environment.namespaceJars processor.settings.source with
  | error fault =>
      refine Or.inr ⟨_, .unlisted hjars, ?_, ?_⟩
      · simp only [builds, hjars]
      · simp only [openSession, hjars]
  | ok classPath =>
      cases hbuild : processor.engine.build tree processor.settings.source
          processor.settings.target classPath with
      | error fault =>
          refine Or.inr ⟨_, .unbuilt hjars hbuild, ?_, ?_⟩
          · simp only [builds, hjars, hbuild]
          · simp only [openSession, hjars, Session.openWith_eq, hbuild, Except.map]
      | ok resolver =>
          refine Or.inl ⟨resolver, ⟨classPath, hjars, hbuild⟩, ?_⟩
          simp only [builds, hjars, hbuild]

/-- A merge ends in one of these ways. -/
theorem ending_mergedWith :
    processor.Ending tree (processor.mergedWith tree).1 (processor.merged tree) := by
  unfold merged mergedWith
  rcases processor.openSession_cases tree with ⟨resolver, hbuilds, -⟩ | ⟨fault, hending, -, hfault⟩
  · rw [hbuilds.openSession]
    simp only [Session.use, Session.finish_eq, Session.abandon_eq, Session.symbols]
    -- A failed merge abandons the session; after a good one the resolver is finished and may
    -- object.
    cases hmerge : processor.mergeUnder (Resolver.symbols resolver) with
    | error fault => exact .unmerged hbuilds hmerge rfl
    | ok found =>
        cases hfinish : Resolver.finish resolver with
        | mk left outcome =>
            cases outcome with
            | error fault => exact .unfinished hbuilds hmerge hfinish
            | ok _ => exact .finished hbuilds hmerge hfinish
  · rw [hfault]
    exact hending

/-- What is left behind was finished once, and the result is that of a merge that does not count. -/
theorem mergedWith_counted :
    processor.counted.mergedWith tree =
      ((processor.mergedWith tree).1.map (⟨·, 1⟩), processor.merged tree) := by
  unfold merged mergedWith
  rw [openSession_counted]
  rcases processor.openSession_cases tree with ⟨resolver, hbuilds, -⟩ | ⟨fault, -, -, hfault⟩
  · have huse := Session.use_counted
      ⟨resolver, processor.settings.source, processor.settings.target, false⟩ rfl Fault.mapping
      processor.mergeUnder
    have hmerge : processor.counted.mergeUnder = processor.mergeUnder := rfl
    simp only [hbuilds.openSession, Except.map, hmerge, huse, Option.map_some]
  · rw [hfault]
    rfl

/-- A resolver is left behind if one was built. -/
theorem elim_mergedWith :
    (processor.mergedWith tree).1.elim 0 (fun _ => 1) = processor.builds tree := by
  unfold mergedWith
  rcases processor.openSession_cases tree with ⟨resolver, hbuilds, hone⟩ | ⟨fault, -, hnone, hfault⟩
  · rw [hbuilds.openSession, hone]
    rfl
  · rw [hfault, hnone]
    rfl

/-- As many resolvers are finished as were built, whichever way a merge ends, and none is finished
    twice. The same goes for any session that the engine opens, whatever is looked up in it, and
    whether it is finished, abandoned, or closed as the outcome of a computation decides. -/
theorem resolver_finished_once :
    processor.Ending tree (processor.mergedWith tree).1 (processor.merged tree) ∧
      processor.counted.mergedWith tree =
        ((processor.mergedWith tree).1.map (⟨·, 1⟩), processor.merged tree) ∧
      (processor.counted.mergedWith tree).1.elim 0 (·.finishes) = processor.builds tree ∧
      ∀ source target classPath session,
        Session.openWith processor.engine.counted tree source target classPath = .ok session →
          session.resolver.finishes = 0 ∧ session.finish.1.finishes = 1 ∧
            session.abandon.finishes = 1 ∧
            ∀ {ε α : Type} (teardown : MappingFault → ε) (compute : Symbols → Except ε α),
              (session.use teardown compute).1.finishes = 1 := by
  refine ⟨ending_mergedWith processor tree, mergedWith_counted processor tree, ?_, ?_⟩
  · rw [mergedWith_counted, Option.elim_map]
    exact elim_mergedWith processor tree
  · intro source target classPath session hsession
    -- A session opens only where a resolver was built, and starts with none finished.
    rw [Session.openWith_counted, Session.openWith_eq] at hsession
    cases hbuild : processor.engine.build tree source target classPath with
    | error fault =>
        rw [hbuild] at hsession
        cases hsession
    | ok resolver =>
        rw [hbuild] at hsession
        cases hsession
        refine ⟨rfl, ?_, ?_, fun teardown compute => ?_⟩
        · rw [Session.finish_counted]
        · rw [Session.abandon_counted _ rfl]
        · rw [Session.use_counted _ rfl]

/-- A processor without files, whose resolvers cannot be finished. -/
def unfinishableProcessor : Processor IdentityResolver where
  settings := { source := .named, target := .named }
  environment := { artifacts := [], namespaceJars := fun _ => .ok [] }
  engine := identityEngine none (some (.archive ⟨"mappings.jar"⟩))
  files := []

/-- Finishing fails, after a merge and on its own, and is not tried again. -/
theorem resolver_finished_once_unfinishable :
    unfinishableProcessor.counted.mergedWith {} =
        ((unfinishableProcessor.mergedWith {}).1.map (⟨·, 1⟩),
          .error (.mapping (.archive ⟨"mappings.jar"⟩))) ∧
      unfinishableProcessor.builds {} = 1 ∧
      ∃ session, Session.openWith unfinishableProcessor.engine.counted {} .named .named [] =
          .ok session ∧
        session.finish.2 = .error (.archive ⟨"mappings.jar"⟩) ∧ session.finish.1.finishes = 1 ∧
          session.abandon.finishes = 1 := by
  have hmerged : unfinishableProcessor.merged {} =
      .error (.mapping (.archive ⟨"mappings.jar"⟩)) := rfl
  have hsession : Session.openWith unfinishableProcessor.engine.counted {} .named .named [] =
      .ok ⟨⟨⟨some (.archive ⟨"mappings.jar"⟩)⟩, 0⟩, .named, .named, false⟩ := rfl
  rcases resolver_finished_once unfinishableProcessor {} with ⟨-, hcounted, -, hsessions⟩
  rcases hsessions _ _ _ _ hsession with ⟨-, hfinish, habandon, -⟩
  rw [hmerged] at hcounted
  exact ⟨hcounted, rfl, _, hsession, rfl, hfinish, habandon⟩

end Processor

end AccessWidener
