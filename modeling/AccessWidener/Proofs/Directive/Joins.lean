import AccessWidener.Proofs.Directive.Deliveries
import AccessWidener.Proofs.Directive.Union

/-!
# Sets as Joins of Requests

A directive set does not remember what was asked of it. It holds, for each target, the levels that
anyone asked for and those that anyone exported, and that is all there is to it: the requests enter a
set as a collection, of which neither the order nor the number of times that one was made is kept.
`DirectiveSet.Joins` says so of a set and the requests that went into it. Inserting a request adds it
to the collection, and uniting two sets puts their collections together.

A set can be taken apart again. It is replayed as one request for each level that it holds, exported
if the level is, and these requests come to the same set.

## Main definitions

* `SameLevels`: Requests that come to the same.
* `DirectiveSet.Joins`: A set holds what a list of requests comes to.

## Theorems

* `Joins.insert`, `Joins.foldl_insert`, `Joins.union`: What a set holds after more requests.
* `Joins.exists_level`, `Joins.access_of_transitive`: No grant is empty, and exports are granted.
* `Joins.eq_of_sameLevels`: Requests that come to the same come to one set.
* `Joins.replayed`: A set holds what it is replayed as.
-/

namespace AccessWidener

/-- Two lists of requests ask for the same levels of the same targets, and export the same. How often
    they do so, and in which order, may differ, and so may requests beside those that export. -/
def SameLevels (asked asked' : List Directive) : Prop :=
  ∀ target level,
    ((∃ mark, (⟨target, level, mark⟩ : Directive) ∈ asked') ↔
      ∃ mark, (⟨target, level, mark⟩ : Directive) ∈ asked) ∧
    ((⟨target, level, true⟩ : Directive) ∈ asked' ↔ (⟨target, level, true⟩ : Directive) ∈ asked)

theorem sameLevels_of_mem_iff {asked asked' : List Directive} (h : ∀ d, d ∈ asked' ↔ d ∈ asked) :
    SameLevels asked asked' :=
  fun _ _ => ⟨exists_congr fun _ => h _, h _⟩

theorem SameLevels.absent_iff {asked asked' : List Directive} (h : SameLevels asked asked')
    (target : Target) :
    (∀ d ∈ asked', d.target ≠ target) ↔ ∀ d ∈ asked, d.target ≠ target := by
  constructor
  · rintro hfree ⟨_, level, mark⟩ hd rfl
    rcases (h _ level).1.mpr ⟨mark, hd⟩ with ⟨mark', hd'⟩
    exact hfree _ hd' rfl
  · rintro hfree ⟨_, level, mark⟩ hd rfl
    rcases (h _ level).1.mp ⟨mark, hd⟩ with ⟨mark', hd'⟩
    exact hfree _ hd' rfl

namespace DirectiveSet

/-- A set holds what a list of requests comes to. Its targets are those that some request names, and
    each is granted the levels that some request asks for, of which it exports those that some
    request exports. -/
structure Joins (set : DirectiveSet) (asked : List Directive) : Prop where
  access : ∀ target level, (set.grantOf target).access.contains level = true ↔
    ∃ mark, (⟨target, level, mark⟩ : Directive) ∈ asked
  transitive : ∀ target level, (set.grantOf target).transitive.contains level = true ↔
    (⟨target, level, true⟩ : Directive) ∈ asked
  absent : ∀ target, set.get? target = none ↔ ∀ d ∈ asked, d.target ≠ target

variable {set other merged : DirectiveSet} {asked asked' : List Directive}

/-! ### More requests -/

theorem joins_nil (h : set.grants = ∅) : set.Joins [] := by
  have hnone : ∀ target, set.get? target = none := by
    intro target
    rw [get?, h, Std.ExtTreeMap.getElem?_empty]
  have hempty : ∀ level, ({} : AccessSet).contains level = false := AccessSet.contains_empty
  constructor
  · intro target level
    simp only [grantOf_eq_empty (hnone target), hempty, Bool.false_eq_true, List.not_mem_nil,
      exists_false]
  · intro target level
    simp only [grantOf_eq_empty (hnone target), hempty, Bool.false_eq_true, List.not_mem_nil]
  · intro target
    simp only [hnone target, List.not_mem_nil, false_implies, implies_true]

/-- What a set holds does not depend on its namespace. -/
theorem Joins.of_grants_eq (h : set.Joins asked) (hgrants : other.grants = set.grants) :
    other.Joins asked := by
  -- A lookup does not see the namespace.
  have hget : ∀ target, other.get? target = set.get? target := by
    intro target
    rw [get?, get?, hgrants]
  constructor
  · intro target
    rw [grantOf, hget]
    exact h.access target
  · intro target
    rw [grantOf, hget]
    exact h.transitive target
  · intro target
    rw [hget]
    exact h.absent target

/-- A request adds its level to the grant of its target. -/
theorem Joins.insert (h : set.Joins asked) (d : Directive) : (set.insert d).Joins (asked ++ [d]) := by
  rcases d with ⟨named, wanted, exported⟩
  constructor
  · intro target level
    simp only [DirectiveSet.insert, grantOf_insertGrant, List.mem_append, List.mem_singleton,
      Directive.mk.injEq, exists_or, ← h.access target level]
    -- Other targets keep the grants that they have.
    by_cases heq : named = target
    · subst heq
      simp only [if_true, Grant.merge, Grant.ofRequest, AccessSet.contains_union,
        AccessSet.contains_singleton, Bool.or_eq_true, decide_eq_true_eq, true_and,
        exists_and_left, exists_eq, and_true]
    · simp only [if_neg heq, Ne.symm heq, false_and, exists_false, or_false]
  · intro target level
    simp only [DirectiveSet.insert, grantOf_insertGrant, List.mem_append, List.mem_singleton,
      Directive.mk.injEq, ← h.transitive target level]
    by_cases heq : named = target
    · subst heq
      cases exported <;>
        simp only [if_true, Grant.merge, Grant.ofRequest, AccessSet.contains_union,
          AccessSet.contains_singleton, AccessSet.contains_empty, Bool.or_eq_true,
          decide_eq_true_eq, true_and, and_true, Bool.true_eq_false, Bool.false_eq_true, if_false,
          and_false]
    · simp only [if_neg heq, Ne.symm heq, false_and, or_false]
  · intro target
    rw [DirectiveSet.insert, get?_insertGrant_eq_none_iff, h.absent, List.forall_mem_append,
      List.forall_mem_singleton, and_comm]

theorem Joins.foldl_insert (h : set.Joins asked) (more : List Directive) :
    (more.foldl DirectiveSet.insert set).Joins (asked ++ more) := by
  induction more generalizing set asked with
  | nil =>
      rw [List.append_nil]
      exact h
  | cons d rest ih =>
      have hrest := ih (h.insert d)
      rw [List.append_assoc, List.singleton_append] at hrest
      exact hrest

/-- The set of a list of requests holds what they come to. -/
theorem joins_ofDirectives (asked : List Directive) : (ofDirectives asked).Joins asked :=
  (joins_nil rfl).foldl_insert asked

/-- A union holds what the requests of both sets come to. -/
theorem Joins.union (h : set.Joins asked) (h' : other.Joins asked')
    (hunion : set.union other = .ok merged) : merged.Joins (asked ++ asked') := by
  constructor
  · intro target level
    simp only [grantOf_union hunion, Grant.merge, AccessSet.contains_union, Bool.or_eq_true,
      h.access, h'.access, List.mem_append, exists_or]
  · intro target level
    rw [grantOf_union hunion, Grant.merge, AccessSet.contains_union, Bool.or_eq_true,
      h.transitive, h'.transitive, List.mem_append]
  · intro target
    rw [get?_union_eq_none_iff hunion, h.absent, h'.absent, List.forall_mem_append]

/-! ### Grants -/

/-- No grant is empty. -/
theorem Joins.exists_level (h : set.Joins asked) {target : Target} {grant : Grant}
    (hget : set.get? target = some grant) : ∃ level, grant.access.contains level = true := by
  have hpresent : ¬∀ d ∈ asked, d.target ≠ target := by
    rw [← h.absent, hget]
    exact Option.some_ne_none grant
  simp only [Classical.not_forall, Decidable.not_not, ne_eq, exists_prop] at hpresent
  rcases hpresent with ⟨d, hd, rfl⟩
  refine ⟨d.access, ?_⟩
  rw [← grantOf_eq_of_get? hget, h.access]
  exact ⟨d.transitive, hd⟩

/-- What is exported is granted. -/
theorem Joins.access_of_transitive (h : set.Joins asked) {target : Target} {level : Access}
    (hlevel : (set.grantOf target).transitive.contains level = true) :
    (set.grantOf target).access.contains level = true :=
  (h.access target level).mpr ⟨true, (h.transitive target level).mp hlevel⟩

/-! ### One set -/

/-- What a set holds is what any requests come to that come to the same. -/
theorem Joins.of_sameLevels (h : set.Joins asked) (hsame : SameLevels asked asked') :
    set.Joins asked' := by
  constructor
  · intro target level
    rw [h.access]
    exact (hsame target level).1.symm
  · intro target level
    rw [h.transitive]
    exact (hsame target level).2.symm
  · intro target
    rw [h.absent]
    exact (hsame.absent_iff target).symm

/-- Requests that come to the same come to the same grants. -/
theorem Joins.get?_eq_of_sameLevels (h : set.Joins asked) (h' : other.Joins asked')
    (hsame : SameLevels asked asked') (target : Target) : other.get? target = set.get? target := by
  -- Equal levels make equal grants, but an empty grant could still stand for a missing one.
  have hgrant : other.grantOf target = set.grantOf target := by
    refine Grant.ext_contains (fun level => ?_) (fun level => ?_)
    · rw [h.access, h'.access]
      exact (hsame target level).1
    · rw [h.transitive, h'.transitive]
      exact (hsame target level).2
  have hnone : other.get? target = none ↔ set.get? target = none := by
    rw [h.absent, h'.absent]
    exact hsame.absent_iff target
  cases hget : set.get? target with
  | none => exact hnone.mpr hget
  | some grant =>
      cases hget' : other.get? target with
      | none =>
          rw [hnone.mp hget'] at hget
          cases hget
      | some grant' =>
          rw [grantOf_eq_of_get? hget, grantOf_eq_of_get? hget'] at hgrant
          rw [hgrant]

theorem Joins.grants_eq_of_sameLevels (h : set.Joins asked) (h' : other.Joins asked')
    (hsame : SameLevels asked asked') : other.grants = set.grants :=
  Std.ExtTreeMap.ext_getElem? fun {target} => h.get?_eq_of_sameLevels h' hsame target

/-- Sets that are spelled in one namespace are equal if their requests come to the same. -/
theorem Joins.eq_of_sameLevels (h : set.Joins asked) (h' : other.Joins asked')
    (hsame : SameLevels asked asked') (hns : other.ns = set.ns) : other = set :=
  ext_get? hns (h.get?_eq_of_sameLevels h' hsame)

/-! ### Replaying -/

/-- A set is replayed as one request for each level that it holds, which is exported if the level
    is. -/
theorem mem_replayed_iff (set : DirectiveSet) (d : Directive) :
    d ∈ set.replayed ↔ (set.grantOf d.target).access.contains d.access = true ∧
      d.transitive = (set.grantOf d.target).transitive.contains d.access := by
  -- The levels of a set are listed among all levels.
  have hlevel : ∀ levels : AccessSet, d.access ∈ levels.toList ↔ levels.contains d.access = true := by
    intro levels
    have hall : d.access ∈ Access.all := by
      cases d.access <;> decide
    rw [AccessSet.toList, List.mem_filter, and_iff_right hall]
  rw [replayed, List.mem_flatMap]
  constructor
  · rintro ⟨⟨target, grant⟩, hentry, hd⟩
    rcases List.mem_map.mp hd with ⟨level, hmem, rfl⟩
    rw [grantOf_eq_of_get? ((mem_toList_iff set target grant).mp hentry)]
    exact ⟨(hlevel grant.access).mp hmem, rfl⟩
  · rintro ⟨haccess, hmark⟩
    refine ⟨_, mem_toList_of_contains haccess, List.mem_map.mpr ⟨d.access, ?_, ?_⟩⟩
    · exact (hlevel _).mpr haccess
    · rw [← hmark]

/-- A set holds what it is replayed as. -/
theorem Joins.replayed (h : set.Joins asked) : set.Joins set.replayed := by
  constructor
  · intro target level
    simp only [mem_replayed_iff, exists_and_left, exists_eq, and_true]
  · intro target level
    rw [mem_replayed_iff]
    exact ⟨fun hlevel => ⟨h.access_of_transitive hlevel, hlevel.symm⟩, fun hd => hd.2.symm⟩
  · intro target
    constructor
    · rintro hnone d hd rfl
      rw [get?_of_contains ((mem_replayed_iff set d).mp hd).1] at hnone
      cases hnone
    · intro hfree
      cases hget : set.get? target with
      | none => rfl
      | some grant =>
          -- Some level is held, and is asked for when the set is replayed.
          rcases h.exists_level hget with ⟨level, hlevel⟩
          rw [← grantOf_eq_of_get? hget] at hlevel
          exact absurd rfl (hfree ⟨target, level, (set.grantOf target).transitive.contains level⟩
            ((mem_replayed_iff set _).mpr ⟨hlevel, rfl⟩))

end DirectiveSet

end AccessWidener
