/-!
# Computations That May Fail

When a computation that may fail has a result: a sequence if both of its parts have one, a traversal
if there is one for every element.

## Theorems

* `bind_eq_ok_iff`: The result of a sequence.
* `mapError_eq_ok_iff`: The result if faults are reported as others.
* `mapM_eq_ok_iff`, `exists_mapM_eq_ok_iff`: The results of a traversal.
-/

namespace AccessWidener

/-- A sequence gives a result if its first part does and the second one, continuing from there. -/
theorem bind_eq_ok_iff {α β ε : Type} {action : Except ε α} {next : α → Except ε β} {b : β} :
    (action >>= next) = .ok b ↔ ∃ a, action = .ok a ∧ next a = .ok b := by
  cases action with
  -- The fault of the first part is that of the sequence.
  | error fault =>
      constructor
      · intro h
        cases h
      · rintro ⟨a, h, -⟩
        cases h
  | ok a =>
      constructor
      · exact fun h => ⟨a, rfl, h⟩
      · rintro ⟨a', ha, h⟩
        cases ha
        exact h

/-- Reporting faults as others leaves the results as they are. -/
theorem mapError_eq_ok_iff {α ε δ : Type} {action : Except ε α} {report : ε → δ} {a : α} :
    action.mapError report = .ok a ↔ action = .ok a := by
  cases action with
  | error fault => exact iff_of_false (fun h => by cases h) (fun h => by cases h)
  | ok found =>
      constructor
      · intro h
        cases h
        rfl
      · intro h
        cases h
        rfl

/-- A traversal succeeds exactly with a list of which each element is what the action gave for the
    input at its place. -/
theorem mapM_eq_ok_iff {α β ε : Type} (action : α → Except ε β) (inputs : List α)
    (outputs : List β) :
    inputs.mapM action = .ok outputs ↔ inputs.map action = outputs.map .ok := by
  induction inputs generalizing outputs with
  | nil =>
      simp only [List.mapM_nil, List.map_nil, pure, Except.pure, Except.ok.injEq, eq_comm,
        List.map_eq_nil_iff]
  | cons input rest ih =>
      rw [List.mapM_cons, List.map_cons]
      cases outputs with
      | nil =>
          -- At least one output is due.
          refine iff_of_false (fun h => ?_) (List.cons_ne_nil _ _)
          cases hinput : action input with
          | error fault =>
              rw [hinput] at h
              cases h
          | ok output =>
              rw [hinput] at h
              simp only [bind, Except.bind] at h
              split at h <;> cases h
      | cons output more =>
          rw [List.map_cons, List.cons.injEq, ← ih more]
          cases action input with
          | error fault => simp only [bind, Except.bind, reduceCtorEq, false_and]
          | ok found =>
              cases rest.mapM action <;>
                simp only [bind, Except.bind, pure, Except.pure, Except.ok.injEq, List.cons.injEq,
                  reduceCtorEq, and_false]

/-- A traversal succeeds if the action does for every input. -/
theorem exists_mapM_eq_ok_iff {α β ε : Type} (action : α → Except ε β) (inputs : List α) :
    (∃ outputs, inputs.mapM action = .ok outputs) ↔
      ∀ input ∈ inputs, ∃ output, action input = .ok output := by
  simp only [mapM_eq_ok_iff]
  induction inputs with
  | nil => exact iff_of_true ⟨[], rfl⟩ (by simp)
  | cons input rest ih =>
      -- A result for the whole list is one for its head and one for the rest.
      rw [List.forall_mem_cons, ← ih]
      constructor
      · rintro ⟨outputs, houtputs⟩
        cases outputs with
        | nil => cases houtputs
        | cons output more =>
            rw [List.map_cons, List.map_cons, List.cons.injEq] at houtputs
            exact ⟨⟨output, houtputs.1⟩, more, houtputs.2⟩
      · rintro ⟨⟨output, houtput⟩, more, hmore⟩
        exact ⟨output :: more, by rw [List.map_cons, List.map_cons, houtput, hmore]⟩

end AccessWidener
