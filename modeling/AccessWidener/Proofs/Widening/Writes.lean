import Mathlib.Data.List.Nodup
import AccessWidener.Proofs.ClassFile.Refilling
import AccessWidener.Proofs.Widening.Plan

/-!
# The Writes of a Widener

A widener changes a class file by a list of writes. This module says what the list amounts to: it
writes no place twice, and filling in the flag words of the class as the list says gives the layout
that the directive set asks for. In which order the members of a plan come makes no difference,
since the lists for two orders are permutations of each other.

The places are told apart by their offsets alone. `ClassLayout.Apart` collects what follows for a
layout whose flag words stand at different offsets, and the rest reasons with it: two writes to one
place would have to come from one flag word, hence from one entry of the plan.

## Main definitions

* `ClassLayout.Apart`: No two flag words of a layout stand at the same place.

## Theorems

* `mem_writes_iff`: What is written, without the order.
* `writes_perm`: The writes for two orders are the same up to order.
* `nodup_writes`: No place is written twice.
* `offset_mem_of_mem_writes`: Only flag words are written.
* `refill_writes`: The writes give what the set asks for.
-/

namespace AccessWidener

theorem MemberKind.exists_iff (P : MemberKind → Prop) : (∃ kind, P kind) ↔ P .method ∨ P .field := by
  constructor
  · rintro ⟨kind, h⟩
    cases kind with
    | method => exact Or.inl h
    | field => exact Or.inr h
  · rintro (h | h)
    · exact ⟨.method, h⟩
    · exact ⟨.field, h⟩

namespace ClassLayout

/-- No two flag words of a layout stand at the same place. -/
structure Apart (layout : ClassLayout) : Prop where
  nodup_members : ∀ kind, ((layout.members kind).map (·.access.offset)).Nodup
  nodup_inner : (layout.inner.map (·.access.offset)).Nodup
  member_ne_class : ∀ kind, ∀ member ∈ layout.members kind,
    member.access.offset ≠ layout.access.offset
  inner_ne_class : ∀ inner ∈ layout.inner, inner.access.offset ≠ layout.access.offset
  inner_ne_member : ∀ kind, ∀ member ∈ layout.members kind, ∀ inner ∈ layout.inner,
    inner.access.offset ≠ member.access.offset
  method_ne_field : ∀ method ∈ layout.methods, ∀ field ∈ layout.fields,
    method.access.offset ≠ field.access.offset

theorem apart_of_nodup {layout : ClassLayout} (h : (layout.sites.map (·.offset)).Nodup) :
    layout.Apart := by
  simp only [sites, List.map_append, List.map_cons, List.map_map, List.cons_append,
    List.nodup_cons, List.nodup_append, List.mem_append, List.mem_map, Function.comp_apply,
    not_or, not_exists, not_and] at h
  -- The words are listed as the class, its fields, its methods and the nested entries.
  rcases h with ⟨⟨⟨hfields, hmethods⟩, hinner⟩, ⟨hnfields, hnmethods, hkinds⟩, hninner, hlast⟩
  refine ⟨?_, hninner, ?_, hinner, ?_, ?_⟩
  · rintro (_ | _)
    · exact hnmethods
    · exact hnfields
  · rintro (_ | _)
    · exact hmethods
    · exact hfields
  · rintro (_ | _) member hmember inner hmem heq
    · exact hlast _ (Or.inr ⟨member, hmember, rfl⟩) _ ⟨inner, hmem, rfl⟩ heq.symm
    · exact hlast _ (Or.inl ⟨member, hmember, rfl⟩) _ ⟨inner, hmem, rfl⟩ heq.symm
  · intro method hmethod field hfield heq
    exact hkinds _ ⟨field, hfield, rfl⟩ _ ⟨method, hmethod, rfl⟩ heq.symm

theorem Apart.member_eq {layout : ClassLayout} (hapart : layout.Apart) {kind : MemberKind}
    {member other : MemberLayout} (hmember : member ∈ layout.members kind)
    (hother : other ∈ layout.members kind)
    (h : member.access.offset = other.access.offset) : member = other :=
  List.inj_on_of_nodup_map (hapart.nodup_members kind) hmember hother h

theorem Apart.inner_eq {layout : ClassLayout} (hapart : layout.Apart) {inner other : InnerLayout}
    (hinner : inner ∈ layout.inner) (hother : other ∈ layout.inner)
    (h : inner.access.offset = other.access.offset) : inner = other :=
  List.inj_on_of_nodup_map hapart.nodup_inner hinner hother h

theorem Apart.kind_eq {layout : ClassLayout} (hapart : layout.Apart) {kind kind' : MemberKind}
    {member other : MemberLayout} (hmember : member ∈ layout.members kind)
    (hother : other ∈ layout.members kind')
    (h : member.access.offset = other.access.offset) : kind = kind' := by
  cases kind with
  | method =>
      cases kind' with
      | method => rfl
      | field => exact absurd h (hapart.method_ne_field member hmember other hother)
  | field =>
      cases kind' with
      | method => exact absurd h.symm (hapart.method_ne_field other hother member hmember)
      | field => rfl

theorem member?_eq_some {layout : ClassLayout} {kind : MemberKind} {signature : Signature}
    {member : MemberLayout} (h : layout.member? kind signature = some member) :
    member ∈ layout.members kind ∧ member.signature = signature := by
  refine ⟨List.mem_of_find?_eq_some h, ?_⟩
  simpa only [decide_eq_true_eq] using List.find?_some h

end ClassLayout

namespace ClassPlan

variable {plan : ClassPlan} {layout : ClassLayout}

theorem memberWrite_eq_some_iff (kind : MemberKind) (entry : Signature × AccessSet)
    (write : FlagSite) :
    memberWrite layout kind entry = some write ↔
      ∃ member, layout.member? kind entry.1 = some member ∧
        { member.access with
          flags := widenMember kind member.access.flags entry.1.name entry.2
            layout.isInterface } = write :=
  Option.map_eq_some_iff

theorem mem_memberWrites_iff (order : MemberOrder) (kind : MemberKind) (write : FlagSite) :
    write ∈ (order.arrange (plan.members kind).toList).filterMap (memberWrite layout kind) ↔
      ∃ signature access, (plan.members kind)[signature]? = some access ∧
        memberWrite layout kind (signature, access) = some write := by
  simp only [List.mem_filterMap, (order.arrange_perm _).mem_iff, Prod.exists,
    Std.ExtTreeMap.mem_toList_iff_getElem?_eq_some]

/-- The members of one kind are written at most once each, because a signature has at most one
    entry in a plan and finds at most one member. -/
theorem nodup_memberWrites (plan : ClassPlan) (hapart : layout.Apart) (order : MemberOrder)
    (kind : MemberKind) :
    (((order.arrange (plan.members kind).toList).filterMap (memberWrite layout kind)).map
      (·.offset)).Nodup := by
  -- Signatures of a plan differ, and so do the members that are found for them.
  have hkeys : (plan.members kind).toList.Pairwise (fun entry later => entry.1 ≠ later.1) :=
    Std.ExtTreeMap.distinct_keys_toList.imp
      (fun h heq => h (Std.LawfulEqCmp.compare_eq_iff_eq.mpr heq))
  have harranged := (order.arrange_perm _).symm.pairwise hkeys (fun h => h.symm)
  rw [List.Nodup, List.pairwise_map]
  refine List.Pairwise.filterMap _ ?_ harranged
  intro entry later hne write hwrite write' hwrite' heq
  rcases (memberWrite_eq_some_iff _ _ _).mp hwrite with ⟨member, hfind, rfl⟩
  rcases (memberWrite_eq_some_iff _ _ _).mp hwrite' with ⟨other, hfind', rfl⟩
  rcases ClassLayout.member?_eq_some hfind with ⟨hmember, hsignature⟩
  rcases ClassLayout.member?_eq_some hfind' with ⟨hother, hsignature'⟩
  refine hne ?_
  rw [← hsignature, ← hsignature', hapart.member_eq hmember hother heq]

theorem offset_of_memberWrite {kind : MemberKind} {entry : Signature × AccessSet}
    {write : FlagSite} (h : memberWrite layout kind entry = some write) :
    ∃ member ∈ layout.members kind, write.offset = member.access.offset := by
  rcases (memberWrite_eq_some_iff _ _ _).mp h with ⟨member, hfind, rfl⟩
  exact ⟨member, (ClassLayout.member?_eq_some hfind).1, rfl⟩

theorem offset_of_mem_memberWrites {kind : MemberKind} {entries : List (Signature × AccessSet)}
    {write : FlagSite} (h : write ∈ entries.filterMap (memberWrite layout kind)) :
    ∃ member ∈ layout.members kind, write.offset = member.access.offset := by
  rcases List.mem_filterMap.mp h with ⟨entry, -, hwrite⟩
  exact offset_of_memberWrite hwrite

/-- A plan writes the word of the class and words of members. -/
theorem offset_of_mem_writes {order : MemberOrder} {write : FlagSite}
    (h : write ∈ plan.writes order layout) :
    write.offset = layout.access.offset ∨
      ∃ kind, ∃ member ∈ layout.members kind, write.offset = member.access.offset := by
  rcases List.mem_cons.mp h with rfl | h
  · exact Or.inl rfl
  · rcases List.mem_append.mp h with h | h
    · exact Or.inr ⟨.method, offset_of_mem_memberWrites h⟩
    · exact Or.inr ⟨.field, offset_of_mem_memberWrites h⟩

theorem nodup_writes (hapart : layout.Apart) (order : MemberOrder) :
    ((plan.writes order layout).map (·.offset)).Nodup := by
  have hmethods := nodup_memberWrites plan hapart order .method
  have hfields := nodup_memberWrites plan hapart order .field
  simp only [writes, List.map_cons, List.map_append, List.nodup_cons, List.nodup_append,
    List.mem_append, List.mem_map]
  -- Within one kind the places are distinct: what is left is the class word, and two kinds.
  refine ⟨?_, hmethods, hfields, ?_⟩
  · rintro (⟨write, hmem, heq⟩ | ⟨write, hmem, heq⟩)
    · rcases offset_of_mem_memberWrites hmem with ⟨member, hmember, hoffset⟩
      exact hapart.member_ne_class .method member hmember (hoffset.symm.trans heq)
    · rcases offset_of_mem_memberWrites hmem with ⟨member, hmember, hoffset⟩
      exact hapart.member_ne_class .field member hmember (hoffset.symm.trans heq)
  · rintro _ ⟨write, hmem, rfl⟩ _ ⟨write', hmem', rfl⟩ heq
    rcases offset_of_mem_memberWrites hmem with ⟨method, hmethod, hoffset⟩
    rcases offset_of_mem_memberWrites hmem' with ⟨field, hfield, hoffset'⟩
    exact hapart.method_ne_field method hmethod field hfield
      (hoffset.symm.trans (heq.trans hoffset'))

/-- A member is written only as the first one with its signature. -/
theorem memberWrite_of_offset_eq (hapart : layout.Apart) {kind kind' : MemberKind}
    {entry : Signature × AccessSet} {write : FlagSite} {member : MemberLayout}
    (hwrite : memberWrite layout kind entry = some write) (hmember : member ∈ layout.members kind')
    (h : write.offset = member.access.offset) :
    kind = kind' ∧ entry.1 = member.signature ∧
      layout.member? kind' member.signature = some member := by
  rcases (memberWrite_eq_some_iff _ _ _).mp hwrite with ⟨found, hfind, rfl⟩
  rcases ClassLayout.member?_eq_some hfind with ⟨hfound, hsignature⟩
  have hkind := hapart.kind_eq hfound hmember h
  subst hkind
  have heq := hapart.member_eq hfound hmember h
  subst heq
  exact ⟨rfl, hsignature.symm, hsignature ▸ hfind⟩

end ClassPlan

namespace Widener

variable {set : DirectiveSet} {widener : Widener} {layout : ClassLayout}

theorem plans_of_ofSet (h : ofSet set = .ok widener) : widener.plans = set.plans := by
  unfold ofSet at h
  split at h
  next => cases h
  next =>
    cases h
    rfl

/-- What is written: the class and its planned members, if the class is planned, and the entries of
    planned classes. -/
theorem mem_writes_iff (order : MemberOrder) (write : FlagSite) :
    write ∈ widener.writes order layout ↔
      (∃ plan, widener.plans[layout.name]? = some plan ∧
        (write = plan.typeWrite layout.access ∨
          ∃ kind signature access, (plan.members kind)[signature]? = some access ∧
            ClassPlan.memberWrite layout kind (signature, access) = some write)) ∨
      ∃ inner ∈ layout.inner, ∃ plan, widener.plans[inner.name]? = some plan ∧
        write = plan.typeWrite inner.access := by
  have hinner : write ∈ layout.inner.filterMap widener.innerWrite ↔
      ∃ inner ∈ layout.inner, ∃ plan, widener.plans[inner.name]? = some plan ∧
        write = plan.typeWrite inner.access := by
    simp only [List.mem_filterMap, innerWrite, Option.map_eq_some_iff, eq_comm (a := write)]
  rw [writes, List.mem_append, hinner]
  refine or_congr ?_ Iff.rfl
  -- Without a plan for the class only the nested entries are written.
  cases hplan : widener.plans[layout.name]? with
  | none => simp only [List.not_mem_nil, reduceCtorEq, false_and, exists_false]
  | some plan =>
      simp only [ClassPlan.writes, List.mem_cons, List.mem_append, Option.some.injEq,
        exists_eq_left', MemberKind.exists_iff, ← ClassPlan.mem_memberWrites_iff order]
      rfl

/-- In another order the same words are written. -/
theorem writes_perm (order : MemberOrder) :
    (widener.writes order layout).Perm (widener.writes .sorted layout) := by
  unfold writes
  refine List.Perm.append_right _ ?_
  split
  next plan =>
    unfold ClassPlan.writes
    refine List.Perm.cons _ (List.Perm.append ?_ ?_)
    · exact (order.arrange_perm _).filterMap _
    · exact (order.arrange_perm _).filterMap _
  next => exact List.Perm.refl _

/-- Only flag words of the class are written. -/
theorem offset_mem_of_mem_writes {order : MemberOrder} {write : FlagSite}
    (h : write ∈ widener.writes order layout) :
    write.offset ∈ layout.sites.map (·.offset) := by
  simp only [ClassLayout.sites, List.map_append, List.map_cons, List.map_map, List.mem_append,
    List.mem_cons, List.mem_map, Function.comp_apply]
  rcases (mem_writes_iff order write).mp h with
    ⟨plan, -, rfl | ⟨kind, signature, access, -, hwrite⟩⟩ | ⟨inner, hinner, plan, -, rfl⟩
  · exact Or.inl (Or.inl (Or.inl rfl))
  · rcases (ClassPlan.memberWrite_eq_some_iff _ _ _).mp hwrite with ⟨member, hfind, rfl⟩
    have hmember := (ClassLayout.member?_eq_some hfind).1
    cases kind with
    | method => exact Or.inl (Or.inr ⟨member, hmember, rfl⟩)
    | field => exact Or.inl (Or.inl (Or.inr ⟨member, hmember, rfl⟩))
  · exact Or.inr ⟨inner, hinner, rfl⟩

/-- No place is written twice. -/
theorem nodup_writes (hapart : layout.Apart) (order : MemberOrder) :
    ((widener.writes order layout).map (·.offset)).Nodup := by
  -- The words of the class and its members, then those of the entries, then both together.
  rw [writes, List.map_append, List.nodup_append]
  refine ⟨?_, ?_, ?_⟩
  · split
    next plan _ => exact ClassPlan.nodup_writes hapart order
    next => exact List.nodup_nil
  · rw [List.Nodup, List.pairwise_map]
    have hinner := hapart.nodup_inner
    rw [List.Nodup, List.pairwise_map] at hinner
    refine List.Pairwise.filterMap _ ?_ hinner
    intro inner later hne write hwrite write' hwrite'
    rcases Option.map_eq_some_iff.mp hwrite with ⟨plan, -, rfl⟩
    rcases Option.map_eq_some_iff.mp hwrite' with ⟨plan', -, rfl⟩
    exact hne
  · intro own hown other hother heq
    rcases List.mem_map.mp hown with ⟨write, hmem, rfl⟩
    rcases List.mem_map.mp hother with ⟨write', hmem', rfl⟩
    rcases List.mem_filterMap.mp hmem' with ⟨inner, hinner, hwrite'⟩
    rcases Option.map_eq_some_iff.mp hwrite' with ⟨plan', -, rfl⟩
    split at hmem
    next plan _ =>
      rcases ClassPlan.offset_of_mem_writes hmem with hclass | ⟨kind, member, hmember, hoffset⟩
      · exact hapart.inner_ne_class inner hinner (heq.symm.trans hclass)
      · exact hapart.inner_ne_member kind member hmember inner hinner (heq.symm.trans hoffset)
    next => cases hmem

/-! ### What the writes amount to -/

variable (hplans : widener.plans = set.plans) (hapart : layout.Apart) (order : MemberOrder)

include hplans hapart

/-- The class gets the flags that are asked for. -/
theorem overwriting_class :
    overwriting (widener.writes order layout) layout.access.offset layout.access.flags =
      widenClass layout.access.flags (set.typeAccess layout.name) := by
  -- A class without a plan is not written, and nothing is asked of it.
  cases hplan : widener.plans[layout.name]? with
  | some plan =>
      have hmem : plan.typeWrite layout.access ∈ widener.writes order layout :=
        (mem_writes_iff order _).mpr (Or.inl ⟨plan, hplan, Or.inl rfl⟩)
      rw [hplans] at hplan
      exact (overwriting_of_mem (nodup_writes hapart order) hmem _).trans
        (DirectiveSet.widenClass_plan hplan _)
  | none =>
      have hne : ∀ write ∈ widener.writes order layout, write.offset ≠ layout.access.offset := by
        intro write hmem
        rcases (mem_writes_iff order write).mp hmem with
          ⟨plan, hsome, -⟩ | ⟨inner, hinner, plan, -, rfl⟩
        · rw [hplan] at hsome
          cases hsome
        · exact hapart.inner_ne_class inner hinner
      rw [hplans] at hplan
      rw [overwriting_of_forall_ne hne, DirectiveSet.typeAccess_eq_empty hplan, widenClass_empty]

/-- The entry for a nested class gets the flags that are asked for. -/
theorem overwriting_inner {inner : InnerLayout} (hinner : inner ∈ layout.inner) :
    overwriting (widener.writes order layout) inner.access.offset inner.access.flags =
      widenClass inner.access.flags (set.typeAccess inner.name) := by
  -- Whoever lists a planned class has its entry written, also if the class lists itself.
  cases hplan : widener.plans[inner.name]? with
  | some plan =>
      have hmem : plan.typeWrite inner.access ∈ widener.writes order layout :=
        (mem_writes_iff order _).mpr (Or.inr ⟨inner, hinner, plan, hplan, rfl⟩)
      rw [hplans] at hplan
      exact (overwriting_of_mem (nodup_writes hapart order) hmem _).trans
        (DirectiveSet.widenClass_plan hplan _)
  | none =>
      have hne : ∀ write ∈ widener.writes order layout, write.offset ≠ inner.access.offset := by
        intro write hmem heq
        rcases (mem_writes_iff order write).mp hmem with
          ⟨plan, -, rfl | ⟨kind, signature, access, -, hwrite⟩⟩ | ⟨other, hother, plan, hsome, rfl⟩
        · exact hapart.inner_ne_class inner hinner heq.symm
        · rcases ClassPlan.offset_of_memberWrite hwrite with ⟨member, hmember, hoffset⟩
          exact hapart.inner_ne_member kind member hmember inner hinner (heq.symm.trans hoffset)
        · rw [hapart.inner_eq hother hinner heq, hplan] at hsome
          cases hsome
      rw [hplans] at hplan
      rw [overwriting_of_forall_ne hne, DirectiveSet.typeAccess_eq_empty hplan, widenClass_empty]

/-- The first member with a planned signature gets the flags of its grant. -/
theorem overwriting_planned {kind : MemberKind} {member : MemberLayout} {plan : ClassPlan}
    {access : AccessSet} (hplan : widener.plans[layout.name]? = some plan)
    (hget : (plan.members kind)[member.signature]? = some access)
    (hfirst : layout.member? kind member.signature = some member) :
    overwriting (widener.writes order layout) member.access.offset member.access.flags =
      (layout.widenDeclared set kind member).access.flags := by
  -- The planned write of this member is in the list, and places are written at most once.
  have hmem : { member.access with
      flags := widenMember kind member.access.flags member.signature.name access
        layout.isInterface } ∈ widener.writes order layout := by
    refine (mem_writes_iff order _).mpr (Or.inl ⟨plan, hplan, Or.inr ?_⟩)
    refine ⟨kind, member.signature, access, hget, ?_⟩
    exact (ClassPlan.memberWrite_eq_some_iff _ _ _).mpr ⟨member, hfirst, rfl⟩
  rw [hplans] at hplan
  rw [ClassLayout.widenDeclared, if_pos hfirst, DirectiveSet.grantOf_of_planned hplan hget]
  exact overwriting_of_mem (nodup_writes hapart order) hmem _

/-- A member whose signature is not planned, or belongs to one in front of it, keeps its flags,
    and that is what is asked for. -/
theorem overwriting_not_planned {kind : MemberKind} {member : MemberLayout}
    (hmember : member ∈ layout.members kind)
    (h : ∀ plan, widener.plans[layout.name]? = some plan →
      layout.member? kind member.signature = some member →
        (plan.members kind)[member.signature]? = none) :
    overwriting (widener.writes order layout) member.access.offset member.access.flags =
      (layout.widenDeclared set kind member).access.flags := by
  -- No write of another kind, and none of another member, meets this place.
  have hne : ∀ write ∈ widener.writes order layout, write.offset ≠ member.access.offset := by
    intro write hmem heq
    rcases (mem_writes_iff order write).mp hmem with
      ⟨plan, hplan, rfl | ⟨kind', signature, access, hget, hwrite⟩⟩ |
        ⟨inner, hinner, plan, -, rfl⟩
    · exact hapart.member_ne_class kind member hmember heq.symm
    · rcases ClassPlan.memberWrite_of_offset_eq hapart hwrite hmember heq with ⟨rfl, rfl, hfirst⟩
      rw [h plan hplan hfirst] at hget
      cases hget
    · exact hapart.inner_ne_member kind member hmember inner hinner heq
  rw [overwriting_of_forall_ne hne, ClassLayout.widenDeclared]
  split
  next hfirst =>
    rw [hplans] at h
    rw [DirectiveSet.grantOf_of_not_planned (fun plan hplan => h plan hplan hfirst),
      widenMember_empty]
  next => rfl

/-- A declared member gets the flags that are asked for: those of its grant if it is the first one
    with its signature, and its own if it is not. -/
theorem overwriting_member {kind : MemberKind} {member : MemberLayout}
    (hmember : member ∈ layout.members kind) :
    overwriting (widener.writes order layout) member.access.offset member.access.flags =
      (layout.widenDeclared set kind member).access.flags := by
  by_cases hwritten : ∃ plan access, widener.plans[layout.name]? = some plan ∧
      (plan.members kind)[member.signature]? = some access ∧
      layout.member? kind member.signature = some member
  · rcases hwritten with ⟨plan, access, hplan, hget, hfirst⟩
    exact overwriting_planned hplans hapart order hplan hget hfirst
  · refine overwriting_not_planned hplans hapart order hmember (fun plan hplan hfirst => ?_)
    refine Option.eq_none_iff_forall_ne_some.mpr (fun access hget => ?_)
    exact hwritten ⟨plan, access, hplan, hget, hfirst⟩

/-- The writes give what the set asks for. -/
theorem refill_writes :
    layout.refill (overwriting (widener.writes order layout)) = layout.widened set := by
  -- Field by field: the members of both kinds, the entries, and the class itself.
  have hmembers : ∀ kind, (layout.members kind).map
      (MemberLayout.refill (overwriting (widener.writes order layout))) =
        (layout.members kind).map (layout.widenDeclared set kind) := by
    intro kind
    refine List.map_congr_left (fun member hmember => ?_)
    have hflags := overwriting_member hplans hapart order hmember
    rw [MemberLayout.refill, FlagSite.refill, hflags, ClassLayout.widenDeclared]
    split <;> rfl
  have hinner : layout.inner.map
      (InnerLayout.refill (overwriting (widener.writes order layout))) =
        layout.inner.map (ClassLayout.widenInner set) := by
    refine List.map_congr_left (fun inner hinner => ?_)
    rw [InnerLayout.refill, FlagSite.refill, overwriting_inner hplans hapart order hinner,
      ClassLayout.widenInner]
  have hfields := hmembers .field
  have hmethods := hmembers .method
  simp only [ClassLayout.members] at hfields hmethods
  rw [ClassLayout.refill, ClassLayout.widened, hfields, hmethods, hinner, FlagSite.refill,
    overwriting_class hplans hapart order]

end Widener

end AccessWidener
