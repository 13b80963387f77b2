import AccessWidener.Proofs.Directive.Grants

/-!
# Uniting Directive Sets

Two sets can be united if the namespaces they declare agree, and a set that declares none agrees
with any. In which order they are united then makes no difference, since grants are merged target by
target and merging is a join.

## Main definitions

* `DirectiveSet.Agrees`: The namespaces of two sets do not conflict.

## Theorems

* `exists_union_iff`: Sets can be united exactly if they agree.
* `union_comm`: The order of a union makes no difference.
* `forall_target_union_iff`: The targets of a union are those of both sets.
-/

namespace AccessWidener

namespace DirectiveSet

variable {set other merged : DirectiveSet}

/-- The namespaces of two sets do not conflict: both are the same, or one is missing. -/
def Agrees (set other : DirectiveSet) : Prop :=
  ∀ ns ∈ set.ns, ∀ ns' ∈ other.ns, ns = ns'

theorem Agrees.symm (h : set.Agrees other) : other.Agrees set :=
  fun ns hns ns' hns' => (h ns' hns' ns hns).symm

/-- A set takes the namespace of another one if the two agree. -/
theorem exists_declare_iff :
    (∃ declared, set.declare other.ns = .ok declared) ↔ set.Agrees other := by
  constructor
  · rintro ⟨declared, h⟩ ns hns ns' hns'
    exact (declare_eq_ok h).2.2 ns' hns' ns hns
  · intro h
    unfold declare
    split
    next => exact ⟨_, rfl⟩
    next found hfound =>
      split
      next => exact ⟨_, rfl⟩
      next expected hexpected =>
        -- Both namespaces are there, so they have to be the same.
        have heq : expected = found := h expected hexpected found hfound
        rw [if_pos heq]
        exact ⟨_, rfl⟩

/-- Two sets can be united exactly if their namespaces agree. -/
theorem exists_union_iff : (∃ merged, set.union other = .ok merged) ↔ set.Agrees other := by
  rw [← exists_declare_iff]
  constructor
  · rintro ⟨merged, h⟩
    rcases union_eq_ok h with ⟨declared, hdeclare, -⟩
    exact ⟨declared, hdeclare⟩
  · rintro ⟨declared, h⟩
    refine ⟨other.toList.foldl (fun held entry => held.insertGrant entry.1 entry.2) declared, ?_⟩
    rw [union, h]
    rfl

/-- The order in which two sets are united makes no difference. -/
theorem union_comm (h : set.union other = .ok merged) : other.union set = .ok merged := by
  have hagrees := exists_union_iff.mp ⟨merged, h⟩
  rcases exists_union_iff.mpr hagrees.symm with ⟨merged', h'⟩
  rw [h']
  refine congrArg Except.ok (ext_grantOf ?_ (fun target => ?_) (fun target => ?_))
  · rw [ns_union h, ns_union h']
    -- Both declare a namespace only if it is the same one.
    cases hns : set.ns with
    | none => rw [Option.or_none, Option.none_or]
    | some ns =>
        cases hns' : other.ns with
        | none => rw [Option.or_none, Option.none_or]
        | some ns' => rw [hagrees ns hns ns' hns', Option.some_or]
  · rw [get?_union_eq_none_iff h, get?_union_eq_none_iff h', and_comm]
  · rw [grantOf_union h, grantOf_union h', Grant.merge_comm]

theorem access_grantOf_union (h : set.union other = .ok merged) (target : Target) :
    (merged.grantOf target).access =
      (set.grantOf target).access.union (other.grantOf target).access := by
  rw [grantOf_union h]
  rfl

/-- What holds of all targets of a set, told without the list of them. -/
theorem forall_target_iff (P : Target → Prop) :
    (∀ entry ∈ set.toList, P entry.1) ↔ ∀ target, set.get? target ≠ none → P target := by
  constructor
  · intro h target hget
    rcases Option.ne_none_iff_exists'.mp hget with ⟨grant, hgrant⟩
    exact h (target, grant) ((mem_toList_iff set target grant).mpr hgrant)
  · intro h entry hmem
    refine h entry.1 (fun hnone => ?_)
    rw [(mem_toList_iff set entry.1 entry.2).mp hmem] at hnone
    cases hnone

/-- The targets of a union are those of both sets. -/
theorem forall_target_union_iff (h : set.union other = .ok merged) (P : Target → Prop) :
    (∀ entry ∈ merged.toList, P entry.1) ↔
      (∀ entry ∈ set.toList, P entry.1) ∧ ∀ entry ∈ other.toList, P entry.1 := by
  simp only [forall_target_iff, ← forall_and, ne_eq, get?_union_eq_none_iff h]
  refine forall_congr' (fun target => ?_)
  rw [Decidable.not_and_iff_not_or_not, or_imp]

/-- A union is not empty if one of its parts is not. -/
theorem isEmpty_union_eq_false (h : set.union other = .ok merged) (hset : set.isEmpty = false) :
    merged.isEmpty = false := by
  rw [isEmpty, Std.ExtTreeMap.isEmpty_eq_false_iff] at hset ⊢
  intro hgrants
  refine hset (Std.ExtTreeMap.ext_getElem? (fun {target} => ?_))
  -- What the union does not hold, its parts do not hold either.
  have hnone : merged.get? target = none := by
    rw [get?, hgrants, Std.ExtTreeMap.getElem?_empty]
  rw [Std.ExtTreeMap.getElem?_empty]
  exact ((get?_union_eq_none_iff h target).mp hnone).1

end DirectiveSet

end AccessWidener
