import AccessWidener.Directive.Set

/-!
# Grants of a Directive Set

What a set grants a target, and how the operations on sets act on it. A target that is not in a set
is granted nothing, so grants are total: `grantOf` is defined everywhere, and each operation is
described by one equation that merges grants. Merging is associative and commutative, so nothing
about the order of requests survives in a set. That a target is there at all is the one thing
`grantOf` does not see, and is stated beside it.

## Main definitions

* `DirectiveSet.grantOf`: What a set grants a target.

## Theorems

* `Grant.merge_assoc`, `Grant.merge_comm`: Merging depends on no order.
* `DirectiveSet.ext_get?`, `DirectiveSet.ext_grantOf`: A set is its namespace and its grants.
* `DirectiveSet.grantOf_insertGrant`: Inserting merges into one grant.
* `DirectiveSet.grantOf_foldl_insertGrant`: Inserting a list merges what it holds for a target.
* `DirectiveSet.grantOf_union`, `DirectiveSet.get?_union_eq_none_iff`: A union merges grants.
-/

namespace AccessWidener

namespace AccessSet

theorem union_assoc (a b c : AccessSet) : (a.union b).union c = a.union (b.union c) := by
  refine ext_contains (fun level => ?_)
  simp only [contains_union, Bool.or_assoc]

theorem union_comm (a b : AccessSet) : a.union b = b.union a := by
  refine ext_contains (fun level => ?_)
  simp only [contains_union, Bool.or_comm]

theorem empty_union (a : AccessSet) : empty.union a = a := by
  refine ext_contains (fun level => ?_)
  simp only [contains_union, contains_empty, Bool.false_or]

theorem isEmpty_iff (a : AccessSet) : a.isEmpty = true ↔ ∀ level, a.contains level = false := by
  rw [isEmpty, decide_eq_true_eq]
  constructor
  · rintro rfl level
    exact contains_empty level
  · intro h
    refine ext_contains (fun level => ?_)
    rw [h level, contains_empty]

end AccessSet

namespace Grant

theorem merge_assoc (a b c : Grant) : (a.merge b).merge c = a.merge (b.merge c) := by
  simp only [merge, AccessSet.union_assoc]

theorem merge_comm (a b : Grant) : a.merge b = b.merge a := by
  simp only [merge, AccessSet.union_comm]

/-- The grant of nothing adds nothing. -/
theorem empty_merge (a : Grant) : ({} : Grant).merge a = a := by
  rcases a with ⟨access, transitive⟩
  rw [merge, Grant.mk.injEq]
  exact ⟨AccessSet.empty_union access, AccessSet.empty_union transitive⟩

theorem merge_empty (a : Grant) : a.merge {} = a := by
  rw [merge_comm, empty_merge]

/-- A grant is the levels of its two parts. -/
theorem ext_contains {a b : Grant}
    (haccess : ∀ level, a.access.contains level = true ↔ b.access.contains level = true)
    (htransitive : ∀ level,
      a.transitive.contains level = true ↔ b.transitive.contains level = true) : a = b := by
  rcases a with ⟨access, transitive⟩
  rcases b with ⟨access', transitive'⟩
  rw [Grant.mk.injEq]
  refine ⟨?_, ?_⟩
  · exact AccessSet.ext_contains (fun level => Bool.eq_iff_iff.mpr (haccess level))
  · exact AccessSet.ext_contains (fun level => Bool.eq_iff_iff.mpr (htransitive level))

end Grant

namespace DirectiveSet

/-- What a set grants a target. -/
def grantOf (set : DirectiveSet) (target : Target) : Grant :=
  (set.get? target).getD {}

theorem grantOf_eq_of_get? {set : DirectiveSet} {target : Target} {grant : Grant}
    (h : set.get? target = some grant) : set.grantOf target = grant := by
  rw [grantOf, h, Option.getD_some]

theorem grantOf_eq_empty {set : DirectiveSet} {target : Target} (h : set.get? target = none) :
    set.grantOf target = {} := by
  rw [grantOf, h, Option.getD_none]

/-- A target that is granted any level is in the set. -/
theorem get?_of_contains {set : DirectiveSet} {target : Target} {level : Access}
    (h : (set.grantOf target).access.contains level = true) :
    set.get? target = some (set.grantOf target) := by
  cases hget : set.get? target with
  | none =>
      rw [grantOf_eq_empty hget] at h
      cases level <;> cases h
  | some grant => rw [grantOf_eq_of_get? hget]

/-- A set is its namespace and its grants. -/
theorem ext_get? {set other : DirectiveSet} (hns : set.ns = other.ns)
    (hget : ∀ target, set.get? target = other.get? target) : set = other := by
  rcases set with ⟨ns, grants⟩
  rcases other with ⟨ns', grants'⟩
  have hgrants : grants = grants' := Std.ExtTreeMap.ext_getElem? (fun {target} => hget target)
  rw [DirectiveSet.mk.injEq]
  exact ⟨hns, hgrants⟩

/-- Sets that spell in one namespace, hold the same targets and grant them the same are equal. -/
theorem ext_grantOf {set other : DirectiveSet} (hns : set.ns = other.ns)
    (hnone : ∀ target, set.get? target = none ↔ other.get? target = none)
    (hgrant : ∀ target, set.grantOf target = other.grantOf target) : set = other := by
  refine ext_get? hns (fun target => ?_)
  cases hget : set.get? target with
  | none => exact ((hnone target).mp hget).symm
  -- Both sets hold the target, so their totals are what they hold.
  | some grant =>
      cases hget' : other.get? target with
      | none =>
          rw [(hnone target).mpr hget'] at hget
          cases hget
      | some grant' =>
          have heq := hgrant target
          rw [grantOf_eq_of_get? hget, grantOf_eq_of_get? hget'] at heq
          rw [heq]

theorem mem_toList_iff (set : DirectiveSet) (target : Target) (grant : Grant) :
    (target, grant) ∈ set.toList ↔ set.get? target = some grant :=
  Std.ExtTreeMap.mem_toList_iff_getElem?_eq_some

theorem mem_toList_of_contains {set : DirectiveSet} {target : Target} {level : Access}
    (h : (set.grantOf target).access.contains level = true) :
    (target, set.grantOf target) ∈ set.toList :=
  (mem_toList_iff set target _).mpr (get?_of_contains h)

theorem nodup_targets (set : DirectiveSet) : (set.toList.map Prod.fst).Nodup := by
  rw [List.Nodup, List.pairwise_map]
  refine Std.ExtTreeMap.distinct_keys_toList.imp (fun h heq => h ?_)
  exact Std.LawfulEqCmp.compare_eq_iff_eq.mpr heq

/-! ### Inserting -/

theorem get?_insertGrant (set : DirectiveSet) (target other : Target) (grant : Grant) :
    (set.insertGrant target grant).get? other =
      if target = other then some ((set.grantOf target).merge grant) else set.get? other := by
  rw [get?, insertGrant, Std.ExtTreeMap.getElem?_alter]
  by_cases h : target = other
  · rw [if_pos h, if_pos (Std.LawfulEqCmp.compare_eq_iff_eq.mpr h), grantOf, get?]
    cases set.grants[target]? with
    | none => simp only [Option.getD_none, Grant.empty_merge]
    | some held => simp only [Option.getD_some]
  · rw [if_neg h, if_neg (fun heq => h (Std.LawfulEqCmp.compare_eq_iff_eq.mp heq)), get?]

/-- Inserting merges into one grant and leaves the others alone. -/
theorem grantOf_insertGrant (set : DirectiveSet) (target other : Target) (grant : Grant) :
    (set.insertGrant target grant).grantOf other =
      if target = other then (set.grantOf other).merge grant else set.grantOf other := by
  rw [grantOf, get?_insertGrant]
  by_cases h : target = other
  · rw [if_pos h, if_pos h, h, Option.getD_some]
  · rw [if_neg h, if_neg h, grantOf]

theorem get?_insertGrant_eq_none_iff (set : DirectiveSet) (target other : Target) (grant : Grant) :
    (set.insertGrant target grant).get? other = none ↔ target ≠ other ∧ set.get? other = none := by
  rw [get?_insertGrant]
  by_cases h : target = other
  · simp only [h, if_true, reduceCtorEq, ne_eq, not_true_eq_false, false_and]
  · simp only [h, if_false, ne_eq, not_false_eq_true, true_and]

theorem ns_insertGrant (set : DirectiveSet) (target : Target) (grant : Grant) :
    (set.insertGrant target grant).ns = set.ns := rfl

/-- What a list of grants holds for a target, merged. -/
def mergeFor (target : Target) (entries : List (Target × Grant)) : Grant :=
  entries.foldr (fun entry held => if entry.1 = target then entry.2.merge held else held) {}

/-- Inserting a list of grants merges what the list holds for a target. -/
theorem grantOf_foldl_insertGrant (entries : List (Target × Grant)) (set : DirectiveSet)
    (target : Target) :
    (entries.foldl (fun held entry => held.insertGrant entry.1 entry.2) set).grantOf target =
      (set.grantOf target).merge (mergeFor target entries) := by
  induction entries generalizing set with
  | nil => exact (Grant.merge_empty _).symm
  | cons entry entries ih =>
      rw [List.foldl_cons, ih, grantOf_insertGrant]
      simp only [mergeFor, List.foldr_cons]
      by_cases h : entry.1 = target
      · rw [if_pos h, if_pos h, Grant.merge_assoc]
      · rw [if_neg h, if_neg h]

theorem get?_foldl_insertGrant_eq_none_iff (entries : List (Target × Grant)) (set : DirectiveSet)
    (target : Target) :
    (entries.foldl (fun held entry => held.insertGrant entry.1 entry.2) set).get? target = none ↔
      set.get? target = none ∧ ∀ entry ∈ entries, entry.1 ≠ target := by
  induction entries generalizing set with
  | nil => simp only [List.foldl_nil, List.not_mem_nil, false_implies, implies_true, and_true]
  | cons entry entries ih =>
      rw [List.foldl_cons, ih, get?_insertGrant_eq_none_iff, List.forall_mem_cons]
      constructor
      · rintro ⟨⟨hentry, hset⟩, hrest⟩
        exact ⟨hset, hentry, hrest⟩
      · rintro ⟨hset, hentry, hrest⟩
        exact ⟨⟨hentry, hset⟩, hrest⟩

theorem ns_foldl_insertGrant (entries : List (Target × Grant)) (set : DirectiveSet) :
    (entries.foldl (fun held entry => held.insertGrant entry.1 entry.2) set).ns = set.ns := by
  induction entries generalizing set with
  | nil => rfl
  | cons entry entries ih => rw [List.foldl_cons, ih, ns_insertGrant]

theorem mergeFor_eq_empty {target : Target} {entries : List (Target × Grant)}
    (h : ∀ entry ∈ entries, entry.1 ≠ target) : mergeFor target entries = {} := by
  induction entries with
  | nil => rfl
  | cons entry entries ih =>
      rw [List.forall_mem_cons] at h
      simp only [mergeFor, List.foldr_cons, if_neg h.1]
      exact ih h.2

/-- Where no target comes twice, what a list holds for a target is the grant listed with it. -/
theorem mergeFor_of_mem {target : Target} {grant : Grant} {entries : List (Target × Grant)}
    (hnodup : (entries.map Prod.fst).Nodup) (hmem : (target, grant) ∈ entries) :
    mergeFor target entries = grant := by
  induction entries with
  | nil => exact absurd hmem List.not_mem_nil
  | cons entry entries ih =>
      rw [List.map_cons, List.nodup_cons] at hnodup
      rcases List.mem_cons.mp hmem with rfl | hrest
      · -- No later entry is for the target, so nothing is merged to the grant.
        have hnone : mergeFor target entries = {} := by
          refine mergeFor_eq_empty (fun later hlater heq => hnodup.1 ?_)
          exact List.mem_map.mpr ⟨later, hlater, heq⟩
        change (if target = target then grant.merge (mergeFor target entries) else _) = grant
        rw [if_pos rfl, hnone, Grant.merge_empty]
      · have hne : entry.1 ≠ target := by
          rintro rfl
          exact hnodup.1 (List.mem_map.mpr ⟨_, hrest, rfl⟩)
        simp only [mergeFor, List.foldr_cons, if_neg hne]
        exact ih hnodup.2 hrest

/-- The grants of a set, merged for a target, are what the set grants it. -/
theorem mergeFor_toList (set : DirectiveSet) (target : Target) :
    mergeFor target set.toList = set.grantOf target := by
  cases hget : set.get? target with
  | none =>
      rw [grantOf_eq_empty hget]
      refine mergeFor_eq_empty (fun entry hmem heq => ?_)
      rw [← heq, (mem_toList_iff set entry.1 entry.2).mp hmem] at hget
      cases hget
  | some grant =>
      rw [grantOf_eq_of_get? hget]
      exact mergeFor_of_mem (nodup_targets set) ((mem_toList_iff set target grant).mpr hget)

/-! ### Uniting -/

theorem declare_eq_ok {set declared : DirectiveSet} {ns : Option Namespace}
    (h : set.declare ns = .ok declared) :
    declared.grants = set.grants ∧ declared.ns = set.ns.or ns ∧
      ∀ found ∈ ns, ∀ expected ∈ set.ns, expected = found := by
  rcases set with ⟨held, grants⟩
  cases ns with
  | none =>
      cases h
      exact ⟨rfl, (Option.or_none).symm, fun found hfound => absurd hfound (by simp)⟩
  | some found =>
      cases held with
      | none =>
          cases h
          exact ⟨rfl, rfl, fun _ _ expected hexpected => absurd hexpected (by simp)⟩
      | some expected =>
          -- A set that has a namespace already takes only the same one again.
          simp only [declare] at h
          by_cases heq : expected = found
          · rw [if_pos heq] at h
            cases h
            refine ⟨rfl, rfl, fun other hother wanted hwanted => ?_⟩
            rw [Option.mem_some_iff] at hother hwanted
            rw [← hwanted, ← hother, heq]
          · rw [if_neg heq] at h
            cases h

/-- A union that succeeds has declared the other namespace and then inserted the other grants. -/
theorem union_eq_ok {set other merged : DirectiveSet} (h : set.union other = .ok merged) :
    ∃ declared, set.declare other.ns = .ok declared ∧
      merged =
        other.toList.foldl (fun held entry => held.insertGrant entry.1 entry.2) declared := by
  rw [union] at h
  cases hdeclare : set.declare other.ns with
  | error fault =>
      rw [hdeclare] at h
      cases h
  | ok declared =>
      rw [hdeclare] at h
      cases h
      exact ⟨declared, rfl, rfl⟩

/-- A union grants every target what either set grants it. -/
theorem grantOf_union {set other merged : DirectiveSet} (h : set.union other = .ok merged)
    (target : Target) :
    merged.grantOf target = (set.grantOf target).merge (other.grantOf target) := by
  rcases union_eq_ok h with ⟨declared, hdeclare, rfl⟩
  have hgrants := (declare_eq_ok hdeclare).1
  rw [grantOf_foldl_insertGrant, mergeFor_toList]
  simp only [grantOf, get?, hgrants]

/-- A target is missing from a union only if it is missing from both sets. -/
theorem get?_union_eq_none_iff {set other merged : DirectiveSet}
    (h : set.union other = .ok merged) (target : Target) :
    merged.get? target = none ↔ set.get? target = none ∧ other.get? target = none := by
  rcases union_eq_ok h with ⟨declared, hdeclare, rfl⟩
  have hgrants := (declare_eq_ok hdeclare).1
  rw [get?_foldl_insertGrant_eq_none_iff]
  refine and_congr (by simp only [get?, hgrants]) ⟨fun hfree => ?_, fun hnone entry hmem heq => ?_⟩
  · cases hget : other.get? target with
    | none => rfl
    | some grant => exact absurd rfl (hfree _ ((mem_toList_iff other target grant).mpr hget))
  · rw [← heq, (mem_toList_iff other entry.1 entry.2).mp hmem] at hnone
    cases hnone

/-- A union keeps the namespace that was declared first. -/
theorem ns_union {set other merged : DirectiveSet} (h : set.union other = .ok merged) :
    merged.ns = set.ns.or other.ns := by
  rcases union_eq_ok h with ⟨declared, hdeclare, rfl⟩
  rw [ns_foldl_insertGrant, (declare_eq_ok hdeclare).2.1]

end DirectiveSet

end AccessWidener
