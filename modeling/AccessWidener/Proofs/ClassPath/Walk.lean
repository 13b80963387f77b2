import Mathlib.Data.List.Flatten
import Mathlib.Data.List.Forall2
import Mathlib.Data.List.Nodup
import Mathlib.Data.List.Perm.Subperm
import AccessWidener.Proofs.ClassPath.Hierarchy

/-!
# Walking up a Hierarchy

The walk behind a hierarchy works off a queue one name at a time. This module says how long that
takes and what comes out. A name that is listed already is dropped; any other is listed, and its
supertypes join the queue, also those that are listed or waiting. So the queue may grow and hold a
name many times, but supertypes join it once for each listed name only, and the walk is over after
one step for the start and one for each link of a listed class (`run_hierarchy`). On a cycle too
this is no more than there are links on the whole class path (`length_flatMap_supertypes_le`).

What comes out begins with the start, repeats nothing and holds what is reached through links of
indexed classes. It is ordered by distance, the least number of links that lead to a name. That
needs no argument about the queue: a hierarchy is its generations, one after the other, and what is
new in a generation is not in an earlier one, so the number of the generation is the distance
(`distances_listed`).

## Main definitions

* `ClassIndex.ReachesIn`, `ClassIndex.IsDistance`: Chains of links, and the length of the shortest.
* `Walk.step`, `Walk.run`: The queue, one name at a time.

## Theorems

* `mem_generation_iff`: A generation is what is reached by chains of one length.
* `distances_listed`: What is listed by generations is listed by distance.
* `nodup_hierarchy`: A hierarchy repeats nothing.
* `run_hierarchy`: How many steps the walk takes, and where it ends.
* `length_flatMap_supertypes_le`: A bound on these steps that the class path gives.
* `hierarchy_exact`: What a hierarchy is, and that the walk ends with it.
-/

namespace AccessWidener

namespace ClassIndex

variable {index : ClassIndex} {name supertype : String} {n : Nat}

/-! ### Distances -/

/-- A chain of a number of links leads from a class to a supertype. -/
inductive ReachesIn (index : ClassIndex) (name : String) : Nat → String → Prop where
  | refl : ReachesIn index name 0 name
  | link {n : Nat} {between supertype : String} (hchain : ReachesIn index name n between)
      (hlink : index.Links between supertype) : ReachesIn index name (n + 1) supertype

/-- The least number of links that lead from a class to a supertype. -/
def IsDistance (index : ClassIndex) (name supertype : String) (n : Nat) : Prop :=
  index.ReachesIn name n supertype ∧ ∀ m, index.ReachesIn name m supertype → n ≤ m

/-- A generation is what is reached by chains of one length. -/
theorem mem_generation_iff :
    supertype ∈ index.generation name n ↔ index.ReachesIn name n supertype := by
  constructor
  · intro hmem
    -- The next generation is one link further out, as is the end of a chain one longer.
    induction n generalizing supertype with
    | zero =>
        rw [List.mem_singleton.mp hmem]
        exact .refl
    | succ n ih =>
        rcases List.mem_flatMap.mp hmem with ⟨between, hbetween, hlink⟩
        exact .link (ih hbetween) (mem_supertypes_iff.mp hlink)
  · intro hchain
    induction hchain with
    | refl => exact List.mem_singleton_self name
    | link _ hlink ih => exact mem_generation_succ ih (mem_supertypes_iff.mpr hlink)

/-- What is new in a generation has the number of the generation for its distance. -/
theorem isDistance_of_mem_fresh
    (h : supertype ∈ fresh (index.listed name n) (index.generation name n)) :
    index.IsDistance name supertype n := by
  rcases mem_fresh_iff.mp h with ⟨hmem, hnew⟩
  refine ⟨mem_generation_iff.mp hmem, fun m hchain => ?_⟩
  by_contra hshorter
  exact hnew (mem_listed_iff.mpr ⟨m, by omega, mem_generation_iff.mpr hchain⟩)

/-- What is listed by generations is listed by distance. -/
theorem distances_listed (index : ClassIndex) (name : String) (n : Nat) :
    ∃ distances, List.Forall₂ (index.IsDistance name) (index.listed name n) distances ∧
      distances.Pairwise (· ≤ ·) ∧ ∀ distance ∈ distances, distance < n := by
  induction n with
  | zero => exact ⟨[], .nil, .nil, by simp⟩
  | succ n ih =>
      rcases ih with ⟨distances, hdistances, hsorted, hbound⟩
      -- Everything new is at the distance that comes next.
      have hnew : List.Forall₂ (index.IsDistance name)
          (fresh (index.listed name n) (index.generation name n))
          ((fresh (index.listed name n) (index.generation name n)).map fun _ => n) := by
        rw [List.forall₂_map_right_iff, List.forall₂_same]
        exact fun _ => isDistance_of_mem_fresh
      refine ⟨distances ++ (fresh (index.listed name n) (index.generation name n)).map fun _ => n,
        ?_, ?_, fun distance hdistance => ?_⟩
      · rw [listed_succ]
        exact List.rel_append hdistances hnew
      · rw [List.pairwise_append, List.pairwise_map]
        refine ⟨hsorted, List.pairwise_of_forall fun _ _ => Nat.le_refl n,
          fun distance hdistance last hlast => ?_⟩
        rcases List.mem_map.mp hlast with ⟨-, -, rfl⟩
        exact Nat.le_of_lt (hbound distance hdistance)
      · rcases List.mem_append.mp hdistance with hold | hlast
        · exact Nat.lt_succ_of_lt (hbound distance hold)
        · rcases List.mem_map.mp hlast with ⟨-, -, rfl⟩
          exact Nat.lt_succ_self n

/-! ### Repetitions -/

theorem nodup_reachFrom (index : ClassIndex) {seen : List String} (queue : List String)
    (h : seen.Nodup) : (index.reachFrom seen queue).Nodup := by
  induction seen, queue using reachFrom.induct index with
  | case1 seen =>
      rw [reachFrom_nil]
      exact h
  | case2 seen name rest hname ih =>
      rw [reachFrom, if_pos hname]
      exact ih h
  | case3 seen name rest hname ih =>
      rw [reachFrom, if_neg hname]
      -- The name is put in the list only where it is not there yet.
      refine ih (List.nodup_append.mpr ⟨h, List.nodup_singleton name, ?_⟩)
      rintro other hother _ hself rfl
      exact hname (List.mem_singleton.mp hself ▸ hother)

/-- A hierarchy repeats nothing. -/
theorem nodup_hierarchy (index : ClassIndex) (name : String) : (index.hierarchy name).Nodup :=
  nodup_reachFrom index [name] List.nodup_nil

end ClassIndex

/-! ### The queue, one name at a time -/

/-- A walk on its way: the names that are listed, and those that wait. -/
structure Walk where
  listed : List String
  queue : List String
deriving DecidableEq, Repr

namespace Walk

/-- Takes one name off the queue. There is no step when the queue is empty. -/
def step (index : ClassIndex) (walk : Walk) : Option Walk :=
  match walk.queue with
  | [] => none
  | name :: rest =>
    if name ∈ walk.listed then some { walk with queue := rest }
    else some { listed := walk.listed ++ [name], queue := rest ++ index.supertypes name }

/-- Takes a number of names off the queue, if there are that many. -/
def run (index : ClassIndex) : Nat → Walk → Option Walk
  | 0, walk => some walk
  | n + 1, walk => (walk.step index).bind (run index n)

end Walk

namespace ClassIndex

variable {index : ClassIndex} {name : String}

/-- A walk ends with the names it still reaches, after one step for each name that waits and one for
    each supertype that joins the queue on the way. -/
theorem run_reachFrom (index : ClassIndex) (seen queue : List String) :
    ∃ more, index.reachFrom seen queue = seen ++ more ∧
      Walk.run index (queue.length + (more.flatMap index.supertypes).length) ⟨seen, queue⟩ =
        some ⟨seen ++ more, []⟩ := by
  induction seen, queue using reachFrom.induct index with
  | case1 seen =>
      refine ⟨[], ?_, ?_⟩
      · rw [reachFrom_nil, List.append_nil]
      · rw [List.append_nil]
        rfl
  | case2 seen name rest hname ih =>
      rcases ih with ⟨more, hmore, hrun⟩
      refine ⟨more, ?_, ?_⟩
      · rw [reachFrom, if_pos hname, hmore]
      · -- A name met again costs one step and adds nothing.
        have hstep : Walk.step index ⟨seen, name :: rest⟩ = some ⟨seen, rest⟩ := by
          simp only [Walk.step, if_pos hname]
        rw [List.length_cons, Nat.succ_add, Walk.run, hstep, Option.bind_some, hrun]
  | case3 seen name rest hname ih =>
      rcases ih with ⟨more, hmore, hrun⟩
      refine ⟨name :: more, ?_, ?_⟩
      · rw [reachFrom, if_neg hname, hmore, List.append_assoc, List.singleton_append]
      · -- A new name costs its own step, and later one for each of its supertypes.
        have hstep : Walk.step index ⟨seen, name :: rest⟩ =
            some ⟨seen ++ [name], rest ++ index.supertypes name⟩ := by
          simp only [Walk.step, if_neg hname]
        rw [List.length_append, Nat.add_assoc, List.append_assoc, List.singleton_append] at hrun
        rw [List.length_cons, List.flatMap_cons, List.length_append, Nat.succ_add, Walk.run, hstep,
          Option.bind_some, hrun]

/-- The walk behind a hierarchy takes one step for its start and one for each supertype of a name
    that it lists. -/
theorem run_hierarchy (index : ClassIndex) (name : String) :
    Walk.run index (1 + ((index.hierarchy name).flatMap index.supertypes).length) ⟨[], [name]⟩ =
      some ⟨index.hierarchy name, []⟩ := by
  rcases run_reachFrom index [] [name] with ⟨more, hmore, hrun⟩
  rw [List.nil_append] at hmore hrun
  rw [hierarchy, hmore]
  exact hrun

/-- Names that are not indexed have no supertypes. -/
theorem flatMap_supertypes_filter (index : ClassIndex) (names : List String) :
    (names.filter (· ∈ index.classes)).flatMap index.supertypes =
      names.flatMap index.supertypes := by
  induction names with
  | nil => rfl
  | cons name names ih =>
      by_cases hname : name ∈ index.classes
      · rw [List.filter_cons_of_pos (by simpa using hname), List.flatMap_cons, List.flatMap_cons,
          ih]
      · rw [List.filter_cons_of_neg (by simpa using hname), List.flatMap_cons,
          supertypes_of_not_mem hname, List.nil_append, ih]

/-- Different names have no more supertypes than there are links on the class path. -/
theorem length_flatMap_supertypes_le (index : ClassIndex) {names : List String}
    (h : names.Nodup) : (names.flatMap index.supertypes).length ≤
      (index.classes.keys.flatMap index.supertypes).length := by
  have hkeys : List.Subperm (names.filter (· ∈ index.classes)) index.classes.keys := by
    refine (h.filter _).subperm (fun name hmem => ?_)
    rw [List.mem_filter, decide_eq_true_eq] at hmem
    exact Std.ExtTreeMap.mem_keys.mpr hmem.2
  rcases hkeys with ⟨middle, hperm, hsublist⟩
  rw [← flatMap_supertypes_filter, ← (hperm.flatMap_right index.supertypes).length_eq]
  exact (hsublist.flatMap index.supertypes).length_le

/-- What a hierarchy is, whatever the class path is like: with cycles, names that are their own
    supertypes, and supertypes that are missing. It begins with the start, repeats nothing, holds
    exactly what is reached through superclasses and interfaces of indexed classes, and is ordered
    by distance. The walk ends with it after one step for the start and one for each supertype of a
    listed name, and these are no more than there are links on the class path. -/
theorem hierarchy_exact (index : ClassIndex) (name : String) :
    (∃ rest, index.hierarchy name = name :: rest) ∧
    (index.hierarchy name).Nodup ∧
    (∀ supertype, supertype ∈ index.hierarchy name ↔ index.Reaches name supertype) ∧
    (∃ distances, List.Forall₂ (index.IsDistance name) (index.hierarchy name) distances ∧
      distances.Pairwise (· ≤ ·)) ∧
    ∃ steps ≤ 1 + (index.classes.keys.flatMap index.supertypes).length,
      Walk.run index steps ⟨[], [name]⟩ = some ⟨index.hierarchy name, []⟩ := by
  have hnodup := nodup_hierarchy index name
  refine ⟨exists_hierarchy_eq_cons index name, hnodup, fun supertype => mem_hierarchy_iff, ?_, ?_⟩
  · -- The names are listed generation by generation, so their distances never decrease.
    rcases distances_listed index name (index.hierarchy name).length with
      ⟨distances, hdistances, hsorted, -⟩
    rw [← hierarchy_eq (Nat.le_refl _)] at hdistances
    exact ⟨distances, hdistances, hsorted⟩
  · -- Listed names are distinct, so each class brings its supertypes to the queue at most once.
    exact ⟨_, Nat.add_le_add_left (length_flatMap_supertypes_le index hnodup) 1,
      run_hierarchy index name⟩

end ClassIndex

end AccessWidener
