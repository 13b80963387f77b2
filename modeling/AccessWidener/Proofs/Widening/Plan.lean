import AccessWidener.Proofs.Widening.Request

/-!
# Plans

A widener plans ahead by going once through its directive set. This module says what it ends up
with: the plan of a class is made of the targets it owns and of no others (`getElem?_plans`), it
holds for each member what the member is granted, and the access it holds for the class is what the
set asks of it as far as the rule for classes can see.

The plan and the request are not equal. A class with an extendable and an accessible method is
planned to be both and asked to be extendable; the rule treats the two alike. That is why the
statement about classes is one about flags, `widenClass_plan`, and not one about levels.

## Main definitions

* `ClassPlan.contribution`: What a target adds to the access of its class.
* `ClassPlan.addAll`: A plan after a list of targets.
* `ClassPlan.memberAccess`: What a plan holds for a member.
* `DirectiveSet.owned`: The targets that a class owns.

## Theorems

* `contains_access_addAll`, `contains_memberAccess_addAll`: A plan joins what its targets add.
* `getElem?_plans`: The plan of a class is made of the targets it owns.
* `isEmpty_access_addAll_owned`, `extendable_access_addAll_owned`: What a plan asks of its class.
* `widenClass_plan`: A planned class gets the flags that the set asks for.
* `grantOf_of_planned`, `grantOf_of_not_planned`: A member is granted what it is planned to have.
-/

namespace AccessWidener

namespace ClassPlan

/-- What a target adds to the access of its class. -/
def contribution (target : Target) (access : AccessSet) : AccessSet :=
  match target with
  | .type _ => access
  | .member .method _ => .singleton (if access.extendable then .extendable else .accessible)
  | .member .field _ => .singleton .accessible

/-- A plan after the targets of a list. -/
def addAll (plan : ClassPlan) (entries : List (Target × Grant)) : ClassPlan :=
  entries.foldl (fun held entry => held.add entry.2.access entry.1) plan

theorem contribution_of_kind_type {target : Target} (h : target.kind = .type) (access : AccessSet) :
    contribution target access = access := by
  cases target with
  | type owner => rfl
  | member kind ref => cases h

/-- Every member adds some level to its class. -/
theorem exists_contains_contribution {target : Target} (h : target.kind ≠ .type)
    (access : AccessSet) : ∃ level, (contribution target access).contains level = true := by
  cases target with
  | type owner => exact absurd rfl h
  | member kind ref =>
      cases kind with
      | method => exact ⟨_, (AccessSet.contains_singleton _ _).trans (decide_eq_true rfl)⟩
      | field => exact ⟨.accessible, rfl⟩

/-- Only types and methods can ask that their class be extendable. -/
theorem extendable_contribution (target : Target) (access : AccessSet) :
    (contribution target access).contains .extendable = true ↔
      (target.kind = .type ∨ target.kind = .member .method) ∧ access.extendable = true := by
  cases target with
  | type owner =>
      simp only [contribution, AccessSet.contains, Target.kind, true_or, true_and]
  | member kind ref =>
      cases kind with
      | method =>
          cases h : access.extendable <;>
            simp [contribution, AccessSet.contains_singleton, Target.kind, h]
      | field => simp [contribution, AccessSet.contains_singleton, Target.kind]

theorem contains_access_add (plan : ClassPlan) (access : AccessSet) (target : Target)
    (level : Access) :
    (plan.add access target).access.contains level =
      (plan.access.contains level || (contribution target access).contains level) := by
  cases target with
  | type owner => simp only [add, contribution, AccessSet.contains_union]
  | member kind ref =>
      cases kind with
      | method =>
          simp only [add, contribution, AccessSet.contains_insert, AccessSet.contains_singleton,
            Bool.or_comm]
      | field =>
          simp only [add, contribution, AccessSet.contains_insert, AccessSet.contains_singleton,
            Bool.or_comm]

/-- The access of a plan is what it was, joined with what each target adds. -/
theorem contains_access_addAll (plan : ClassPlan) (entries : List (Target × Grant))
    (level : Access) :
    (plan.addAll entries).access.contains level = true ↔
      plan.access.contains level = true ∨
        ∃ entry ∈ entries, (contribution entry.1 entry.2.access).contains level = true := by
  induction entries generalizing plan with
  | nil => simp only [addAll, List.foldl_nil, List.not_mem_nil, false_and, exists_false, or_false]
  | cons entry entries ih =>
      have hstep := ih (plan.add entry.2.access entry.1)
      rw [contains_access_add, Bool.or_eq_true] at hstep
      simp only [addAll, List.foldl_cons, List.mem_cons, exists_eq_or_imp] at hstep ⊢
      rw [hstep, or_assoc]

/-- What a plan holds for a member. -/
def memberAccess (plan : ClassPlan) (kind : MemberKind) (signature : Signature) : AccessSet :=
  (plan.members kind)[signature]?.getD .empty

theorem getD_addMember (members : Std.ExtTreeMap Signature AccessSet) (signature other : Signature)
    (access : AccessSet) :
    (addMember members signature access)[other]?.getD AccessSet.empty =
      if signature = other then (members[other]?.getD AccessSet.empty).union access
      else members[other]?.getD AccessSet.empty := by
  rw [addMember, Std.ExtTreeMap.getElem?_alter]
  by_cases h : signature = other
  · rw [if_pos h, if_pos (Std.LawfulEqCmp.compare_eq_iff_eq.mpr h), Option.getD_some, h]
  · rw [if_neg h, if_neg (fun heq => h (Std.LawfulEqCmp.compare_eq_iff_eq.mp heq))]

theorem contains_memberAccess_add (plan : ClassPlan) (access : AccessSet) (target : Target)
    (kind : MemberKind) (signature : Signature) (level : Access) :
    ((plan.add access target).memberAccess kind signature).contains level = true ↔
      (plan.memberAccess kind signature).contains level = true ∨
        target.kind = .member kind ∧ target.signature? = some signature ∧
          access.contains level = true := by
  cases target with
  | type owner =>
      cases kind <;>
        simp only [add, memberAccess, members, Target.kind, reduceCtorEq, false_and, or_false]
  | member kind' ref =>
      -- A member adds to its own entry, among the members of its own kind.
      by_cases hsame : ref.signature = signature
      · cases kind <;> cases kind' <;>
          simp only [add, memberAccess, members, getD_addMember, Target.kind, Target.signature?,
            hsame, if_true, AccessSet.contains_union, Bool.or_eq_true, TargetKind.member.injEq,
            reduceCtorEq, false_and, true_and, or_false]
      · cases kind <;> cases kind' <;>
          simp only [add, memberAccess, members, getD_addMember, Target.kind, Target.signature?,
            hsame, if_false, Option.some.injEq, false_and, and_false, or_false]

/-- What a plan holds for a member is what it was, joined with the grants of the member. -/
theorem contains_memberAccess_addAll (plan : ClassPlan) (entries : List (Target × Grant))
    (kind : MemberKind) (signature : Signature) (level : Access) :
    ((plan.addAll entries).memberAccess kind signature).contains level = true ↔
      (plan.memberAccess kind signature).contains level = true ∨
        ∃ entry ∈ entries, entry.1.kind = .member kind ∧ entry.1.signature? = some signature ∧
          entry.2.access.contains level = true := by
  induction entries generalizing plan with
  | nil => simp only [addAll, List.foldl_nil, List.not_mem_nil, false_and, exists_false, or_false]
  | cons entry entries ih =>
      have hstep := ih (plan.add entry.2.access entry.1)
      rw [contains_memberAccess_add] at hstep
      simp only [addAll, List.foldl_cons, List.mem_cons, exists_eq_or_imp] at hstep ⊢
      rw [hstep, or_assoc]

end ClassPlan

namespace DirectiveSet

theorem getElem?_addGrant (plans : Std.ExtTreeMap String ClassPlan) (entry : Target × Grant)
    (owner : String) :
    (addGrant plans entry)[owner]? =
      if entry.1.owner = owner then
        some ((plans[owner]?.getD ({} : ClassPlan)).add entry.2.access entry.1)
      else plans[owner]? := by
  rw [addGrant, Std.ExtTreeMap.getElem?_alter]
  by_cases h : entry.1.owner = owner
  · rw [if_pos h, if_pos (Std.LawfulEqCmp.compare_eq_iff_eq.mpr h), h]
  · rw [if_neg h, if_neg (fun heq => h (Std.LawfulEqCmp.compare_eq_iff_eq.mp heq))]

theorem getElem?_foldl_addGrant (entries : List (Target × Grant))
    (plans : Std.ExtTreeMap String ClassPlan) (owner : String) :
    (entries.foldl addGrant plans)[owner]? =
      if entries.filter (·.1.owner = owner) = [] then plans[owner]?
      else some
        ((plans[owner]?.getD ({} : ClassPlan)).addAll (entries.filter (·.1.owner = owner))) := by
  -- The plans so far are left open: each target that the class owns adds to its plan.
  induction entries generalizing plans with
  | nil => rfl
  | cons entry entries ih =>
      rw [List.foldl_cons, ih, getElem?_addGrant]
      by_cases h : entry.1.owner = owner
      · simp only [h, if_true, Option.getD_some, List.filter_cons, decide_true, reduceCtorEq,
          if_false, ClassPlan.addAll, List.foldl_cons]
        split
        next hnil => rw [hnil, List.foldl_nil]
        next => rfl
      · simp only [h, if_false, List.filter_cons, decide_false]
        rfl

/-- The targets that a class owns, itself included. -/
def owned (set : DirectiveSet) (owner : String) : List (Target × Grant) :=
  set.toList.filter (·.1.owner = owner)

theorem mem_owned_iff (set : DirectiveSet) (owner : String) (entry : Target × Grant) :
    entry ∈ set.owned owner ↔ entry ∈ set.toList ∧ entry.1.owner = owner := by
  rw [owned, List.mem_filter, decide_eq_true_eq]

/-- The plan of a class is made of the targets that it owns; a class that owns none has no plan. -/
theorem getElem?_plans (set : DirectiveSet) (owner : String) :
    set.plans[owner]? =
      if set.owned owner = [] then none else some (ClassPlan.addAll {} (set.owned owner)) := by
  rw [plans, getElem?_foldl_addGrant, Std.ExtTreeMap.getElem?_empty]
  rfl

theorem getElem?_plans_eq_none_iff (set : DirectiveSet) (owner : String) :
    set.plans[owner]? = none ↔ set.owned owner = [] := by
  rw [getElem?_plans]
  by_cases h : set.owned owner = []
  · rw [if_pos h]
    exact iff_of_true rfl h
  · rw [if_neg h]
    exact iff_of_false (Option.some_ne_none _) h

theorem plan_eq_addAll {set : DirectiveSet} {owner : String} {plan : ClassPlan}
    (h : set.plans[owner]? = some plan) : plan = ClassPlan.addAll {} (set.owned owner) := by
  rw [getElem?_plans] at h
  split at h
  next => cases h
  next => exact (Option.some.inj h).symm

theorem owner_eq_of_kind_type {target : Target} (h : target.kind = .type) :
    target = .type target.owner := by
  cases target with
  | type owner => rfl
  | member kind ref => cases h

theorem contains_grantOf_type (set : DirectiveSet) (owner : String) (level : Access) :
    (set.grantOf (.type owner)).access.contains level = true ↔
      ∃ entry ∈ set.owned owner, entry.1.kind = .type ∧ entry.2.access.contains level = true := by
  constructor
  · intro h
    exact ⟨(.type owner, _), (mem_owned_iff _ _ _).mpr ⟨mem_toList_of_contains h, rfl⟩, rfl, h⟩
  · rintro ⟨⟨target, grant⟩, hmem, hkind, hlevel⟩
    rcases (mem_owned_iff _ _ _).mp hmem with ⟨hlist, howner⟩
    have htarget := owner_eq_of_kind_type hkind
    simp only at howner htarget
    rw [htarget, howner] at hlist
    rwa [grantOf_eq_of_get? ((mem_toList_iff _ _ _).mp hlist)]

/-- What a plan holds for a member is what the set grants the member. -/
theorem memberAccess_addAll_owned (set : DirectiveSet) (owner : String) (kind : MemberKind)
    (signature : Signature) :
    (ClassPlan.addAll {} (set.owned owner)).memberAccess kind signature =
      (set.grantOf (.member kind ⟨owner, signature⟩)).access := by
  refine AccessSet.ext_contains (fun level => ?_)
  rw [Bool.eq_iff_iff, ClassPlan.contains_memberAccess_addAll]
  have hstart : (ClassPlan.memberAccess {} kind signature).contains level = false := by
    cases kind <;> exact AccessSet.contains_empty level
  rw [hstart]
  constructor
  · rintro (hfalse | ⟨⟨target, grant⟩, hmem, hkind, hsignature, hlevel⟩)
    · cases hfalse
    · rcases (mem_owned_iff _ _ _).mp hmem with ⟨hlist, howner⟩
      cases target with
      | type owner => cases hkind
      | member kind' ref =>
          rcases ref with ⟨owner', signature'⟩
          simp only [Target.kind, TargetKind.member.injEq, Target.signature?, Option.some.injEq,
            Target.owner] at hkind hsignature howner
          -- The entry is the one of this very target, so its grant is the one that is looked up.
          rw [hkind, hsignature, howner] at hlist
          rwa [grantOf_eq_of_get? ((mem_toList_iff _ _ _).mp hlist)]
  · intro h
    exact Or.inr ⟨(.member kind ⟨owner, signature⟩, _),
      (mem_owned_iff _ _ _).mpr ⟨mem_toList_of_contains h, rfl⟩, rfl, rfl, h⟩

/-! ### The class itself -/

theorem contains_access_addAll_owned (set : DirectiveSet) (owner : String) (level : Access) :
    (ClassPlan.addAll {} (set.owned owner)).access.contains level = true ↔
      ∃ entry ∈ set.owned owner,
        (ClassPlan.contribution entry.1 entry.2.access).contains level = true := by
  rw [ClassPlan.contains_access_addAll]
  refine or_iff_right (fun h => ?_)
  cases level <;> cases h

/-- A plan asks something of its class exactly if the set does. -/
theorem isEmpty_access_addAll_owned (set : DirectiveSet) (owner : String) :
    (ClassPlan.addAll {} (set.owned owner)).access.isEmpty = (set.typeAccess owner).isEmpty := by
  rw [Bool.eq_iff_iff, isEmpty_typeAccess, AccessSet.isEmpty_iff, AccessSet.isEmpty_iff]
  simp only [← Bool.not_eq_true, contains_access_addAll_owned, contains_grantOf_type]
  constructor
  · -- A grant of the class would add its levels, and any member adds one.
    intro hnone
    refine ⟨fun level => ?_, fun entry hmem howner => ?_⟩
    · rintro ⟨entry, hmem, hkind, hlevel⟩
      refine hnone level ⟨entry, hmem, ?_⟩
      rwa [ClassPlan.contribution_of_kind_type hkind]
    · refine Decidable.byContradiction (fun hkind => ?_)
      rcases ClassPlan.exists_contains_contribution hkind entry.2.access with ⟨level, hlevel⟩
      exact hnone level ⟨entry, (mem_owned_iff _ _ _).mpr ⟨hmem, howner⟩, hlevel⟩
  · rintro ⟨hgrant, htypes⟩ level ⟨entry, hmem, hlevel⟩
    rcases (mem_owned_iff _ _ _).mp hmem with ⟨hlist, howner⟩
    have hkind := htypes entry hlist howner
    rw [ClassPlan.contribution_of_kind_type hkind] at hlevel
    exact hgrant level ⟨entry, hmem, hkind, hlevel⟩

/-- A plan asks that its class be extendable exactly if the set does. -/
theorem extendable_access_addAll_owned (set : DirectiveSet) (owner : String) :
    (ClassPlan.addAll {} (set.owned owner)).access.extendable =
      (set.typeAccess owner).extendable := by
  rw [Bool.eq_iff_iff, extendable_typeAccess]
  change (ClassPlan.addAll {} (set.owned owner)).access.contains .extendable = true ↔
    (set.grantOf (.type owner)).access.contains .extendable = true ∨ _
  rw [contains_access_addAll_owned, contains_grantOf_type]
  constructor
  · rintro ⟨entry, hmem, hlevel⟩
    -- The level comes from the class itself or from one of its methods, never from a field.
    rcases (ClassPlan.extendable_contribution _ _).mp hlevel with ⟨hkind | hkind, hlevel⟩
    · exact Or.inl ⟨entry, hmem, hkind, hlevel⟩
    · rcases (mem_owned_iff _ _ _).mp hmem with ⟨hlist, howner⟩
      exact Or.inr ⟨entry, hlist, howner, hkind, hlevel⟩
  · rintro (⟨entry, hmem, hkind, hlevel⟩ | ⟨entry, hlist, howner, hkind, hlevel⟩)
    · exact ⟨entry, hmem, (ClassPlan.extendable_contribution _ _).mpr ⟨Or.inl hkind, hlevel⟩⟩
    · exact ⟨entry, (mem_owned_iff _ _ _).mpr ⟨hlist, howner⟩,
        (ClassPlan.extendable_contribution _ _).mpr ⟨Or.inr hkind, hlevel⟩⟩

/-- Nothing is asked of a class without a plan. -/
theorem typeAccess_eq_empty {set : DirectiveSet} {owner : String}
    (h : set.plans[owner]? = none) : set.typeAccess owner = .empty := by
  have hnil := (getElem?_plans_eq_none_iff set owner).mp h
  -- The plan made of no targets asks for nothing, and the set asks for what the plan does.
  have hempty := isEmpty_access_addAll_owned set owner
  rw [hnil, eq_comm] at hempty
  exact of_decide_eq_true (hempty.trans rfl)

/-- A planned class gets the flags that the set asks for. -/
theorem widenClass_plan {set : DirectiveSet} {owner : String} {plan : ClassPlan}
    (h : set.plans[owner]? = some plan) (flags : UInt16) :
    widenClass flags plan.access = widenClass flags (set.typeAccess owner) := by
  rw [plan_eq_addAll h]
  exact widenClass_congr (isEmpty_access_addAll_owned set owner)
    (extendable_access_addAll_owned set owner) flags

/-- What a plan holds for a member of its class is what the set grants the member. -/
theorem memberAccess_plan {set : DirectiveSet} {owner : String} {plan : ClassPlan}
    (h : set.plans[owner]? = some plan) (kind : MemberKind) (signature : Signature) :
    plan.memberAccess kind signature =
      (set.grantOf (.member kind ⟨owner, signature⟩)).access := by
  rw [plan_eq_addAll h, memberAccess_addAll_owned]

/-- A planned member is granted the access in the plan. -/
theorem grantOf_of_planned {set : DirectiveSet} {owner : String} {plan : ClassPlan}
    {kind : MemberKind} {signature : Signature} {access : AccessSet}
    (h : set.plans[owner]? = some plan) (hget : (plan.members kind)[signature]? = some access) :
    (set.grantOf (.member kind ⟨owner, signature⟩)).access = access := by
  rw [← memberAccess_plan h, ClassPlan.memberAccess, hget, Option.getD_some]

/-- A member that is not planned, with its class or without it, is granted nothing. -/
theorem grantOf_of_not_planned {set : DirectiveSet} {owner : String} {kind : MemberKind}
    {signature : Signature}
    (h : ∀ plan, set.plans[owner]? = some plan → (plan.members kind)[signature]? = none) :
    (set.grantOf (.member kind ⟨owner, signature⟩)).access = .empty := by
  cases hplan : set.plans[owner]? with
  | none =>
      have hnil := (getElem?_plans_eq_none_iff set owner).mp hplan
      rw [← memberAccess_addAll_owned, hnil]
      cases kind <;> rfl
  | some plan =>
      rw [← memberAccess_plan hplan, ClassPlan.memberAccess, h plan hplan, Option.getD_none]

end DirectiveSet

end AccessWidener
