import AccessWidener.Proofs.ClassFile.Steps
import AccessWidener.Proofs.ClassFile.Words
import AccessWidener.Proofs.Directive.Union
import AccessWidener.Proofs.Widening.ClassFile

/-!
# Widening Step by Step

Directive sets may be applied one after the other, in either order, or united and applied at once. A
class file comes out the same, provided that no method of it is public and private at once or has
some other pair of visibilities.

For a flag word that is a matter of its rule (`widenClass_union`, `widenMember_union`). What is left
is to see that the parts fit together. The first widening leaves a file in which the second one
finds the same members under the same signatures. And although a union may ask less of a class than
its parts do one after the other, since a method that is to be extendable and accessible asks for an
extendable class only, it asks for an extendable class, or for any class at all, exactly when one of
the parts does.

## Main definitions

* `Widener.Leaves`: What a widener leaves of a class file.

## Theorems

* `isEmpty_typeAccess_union`, `extendable_typeAccess_union`: What a union asks of a class.
* `widened_union`: A layout widened twice is the layout widened by the union.
* `patchClass_union`: Widening steps compose and commute.
-/

namespace AccessWidener

namespace DirectiveSet

variable {first second both : DirectiveSet}

/-- A union asks something of a class if either part does. -/
theorem isEmpty_typeAccess_union (h : first.union second = .ok both) (owner : String) :
    (both.typeAccess owner).isEmpty =
      ((first.typeAccess owner).isEmpty && (second.typeAccess owner).isEmpty) := by
  have htypes := forall_target_union_iff h
    (fun target => target.owner = owner → target.kind = .type)
  rw [Bool.eq_iff_iff, Bool.and_eq_true, isEmpty_typeAccess, isEmpty_typeAccess, isEmpty_typeAccess,
    access_grantOf_union h, isEmpty_union, htypes]
  exact and_and_and_comm

/-- A class is to be extendable if it is granted that itself, or a method of it is. -/
theorem extendable_typeAccess_iff (set : DirectiveSet) (owner : String) :
    (set.typeAccess owner).extendable = true ↔
      ∃ target, target.owner = owner ∧ target.kind ≠ .member .field ∧
        (set.grantOf target).access.extendable = true := by
  rw [extendable_typeAccess]
  constructor
  · rintro (htype | ⟨⟨target, grant⟩, hmem, howner, hkind, hlevel⟩)
    · exact ⟨.type owner, rfl, by simp only [Target.kind, ne_eq, reduceCtorEq, not_false_eq_true],
        htype⟩
    · have hgrant := grantOf_eq_of_get? ((mem_toList_iff set target grant).mp hmem)
      refine ⟨target, howner, ?_, by rw [hgrant]; exact hlevel⟩
      simp only at hkind
      -- A method that is to be extended asks for its class to be extendable.
      rw [hkind]
      simp only [ne_eq, TargetKind.member.injEq, reduceCtorEq, not_false_eq_true]
  · rintro ⟨target, rfl, hkind, hlevel⟩
    cases target with
    | type owner => exact Or.inl hlevel
    | member kind ref =>
        cases kind with
        | method =>
            have hcontains :
                (set.grantOf (.member .method ref)).access.contains .extendable := hlevel
            exact Or.inr ⟨(.member .method ref, _), mem_toList_of_contains hcontains, rfl, rfl,
              hlevel⟩
        | field => exact absurd rfl hkind

/-- A union asks that a class be extendable if either part does. -/
theorem extendable_typeAccess_union (h : first.union second = .ok both) (owner : String) :
    (both.typeAccess owner).extendable =
      ((first.typeAccess owner).extendable || (second.typeAccess owner).extendable) := by
  rw [Bool.eq_iff_iff, Bool.or_eq_true, extendable_typeAccess_iff, extendable_typeAccess_iff,
    extendable_typeAccess_iff, ← exists_or]
  refine exists_congr (fun target => ?_)
  rw [access_grantOf_union h, AccessSet.union, Bool.or_eq_true, and_or_left, and_or_left]

/-- A class widened for one set and then for another is widened for their union. -/
theorem widenClass_typeAccess_union (h : first.union second = .ok both) (owner : String)
    (flags : UInt16) :
    widenClass (widenClass flags (first.typeAccess owner)) (second.typeAccess owner) =
      widenClass flags (both.typeAccess owner) :=
  widenClass_union (isEmpty_typeAccess_union h owner) (extendable_typeAccess_union h owner) flags

end DirectiveSet

namespace ClassLayout

variable {first second both : DirectiveSet} {layout : ClassLayout}

/-- A member that is not the first one with its signature is not the first one after widening
    either: the first one stands at another place. -/
theorem member?_widened_ne (set : DirectiveSet) (hapart : layout.Apart) {kind : MemberKind}
    {member : MemberLayout} (hmember : member ∈ layout.members kind)
    (hfirst : layout.member? kind member.signature ≠ some member) :
    (layout.widened set).member? kind member.signature ≠ some member := by
  rw [member?_widened_eq]
  intro h
  rcases Option.map_eq_some_iff.mp h with ⟨declared, hdeclared, hsame⟩
  have hoffset : declared.access.offset = member.access.offset := by
    rw [← hsame, offset_widenDeclared]
  rw [hapart.member_eq (member?_eq_some hdeclared).1 hmember hoffset] at hdeclared
  exact hfirst hdeclared

/-- A member widened for one set and then for another is widened for their union. -/
theorem widenDeclared_union (h : first.union second = .ok both) (hapart : layout.Apart)
    {kind : MemberKind} {member : MemberLayout} (hmember : member ∈ layout.members kind)
    (hone : kind = .method → OneVisibility member.access.flags) :
    (layout.widened first).widenDeclared second kind (layout.widenDeclared first kind member) =
      layout.widenDeclared both kind member := by
  by_cases hfirst : layout.member? kind member.signature = some member
  · -- The second widening finds the member where the first one left it, and asks the same rule.
    have hagain : (layout.widened first).member? kind member.signature =
        some (layout.widenDeclared first kind member) := by
      rw [member?_widened_eq, hfirst, Option.map_some]
    have hname : (layout.widened first).name = layout.name := rfl
    have hgrant := DirectiveSet.access_grantOf_union h
      (.member kind ⟨layout.name, member.signature⟩)
    rw [widenDeclared, signature_widenDeclared, if_pos hagain, isInterface_widened, hname,
      widenDeclared, if_pos hfirst, widenDeclared, if_pos hfirst, hgrant,
      ← widenMember_union hone]
  · have hagain := member?_widened_ne first hapart hmember hfirst
    have hsame : ∀ set, layout.widenDeclared set kind member = member := fun set => if_neg hfirst
    rw [hsame, hsame, widenDeclared, if_neg hagain]

/-- A layout widened for one set and then for another is the layout widened for their union. -/
theorem widened_union (h : first.union second = .ok both) (hapart : layout.Apart)
    (hone : ∀ method ∈ layout.methods, OneVisibility method.access.flags) :
    (layout.widened first).widened second = layout.widened both := by
  have hmembers : ∀ kind,
      ((layout.members kind).map (layout.widenDeclared first kind)).map
          ((layout.widened first).widenDeclared second kind) =
        (layout.members kind).map (layout.widenDeclared both kind) := by
    intro kind
    rw [List.map_map]
    refine List.map_congr_left (fun member hmember => ?_)
    refine widenDeclared_union h hapart hmember (fun hkind => ?_)
    subst hkind
    exact hone member hmember
  have hinner : (layout.inner.map (widenInner first)).map (widenInner second) =
      layout.inner.map (widenInner both) := by
    rw [List.map_map]
    refine List.map_congr_left (fun inner _ => ?_)
    simp only [Function.comp_apply, widenInner, DirectiveSet.widenClass_typeAccess_union h]
  have hclass := DirectiveSet.widenClass_typeAccess_union h layout.name layout.access.flags
  have hfields := hmembers .field
  have hmethods := hmembers .method
  -- Field by field; the names are not touched.
  simp only [members] at hfields hmethods
  change ClassLayout.mk _ _ _ _ _ _ _ = ClassLayout.mk _ _ _ _ _ _ _
  rw [ClassLayout.mk.injEq]
  exact ⟨rfl, rfl, rfl, congrArg (FlagSite.mk layout.access.offset) hclass, hfields, hmethods,
    hinner⟩

end ClassLayout

namespace Widener

/-- What a widener leaves of a class file, in whatever order it takes the members of a plan. -/
def Leaves (widener : Widener) (bytes left : Bytes) : Prop :=
  ∀ order, widener.patchClass bytes order = (left, .ok (decide (left ≠ bytes)))

theorem Leaves.unique {widener : Widener} {bytes left left' : Bytes} (h : widener.Leaves bytes left)
    (h' : widener.Leaves bytes left') : left = left' :=
  congrArg Prod.fst ((h .sorted).symm.trans (h' .sorted))

variable {first second both : DirectiveSet} {one other all : Widener}

/-- Widening for one set and then for another leaves what widening for their union does. -/
theorem leaves_union (h : first.union second = .ok both) (hone : ofSet first = .ok one)
    (hother : ofSet second = .ok other) (hall : ofSet both = .ok all) {bytes : Bytes}
    {layout : ClassLayout} (hparse : ClassLayout.parse bytes = .ok layout)
    (hvisibility : ∀ method ∈ layout.methods, OneVisibility method.access.flags) :
    ∃ middle left, one.Leaves bytes middle ∧ other.Leaves middle left ∧ all.Leaves bytes left := by
  have hapart : layout.Apart := by
    rcases ClassLayout.parse_form hparse with ⟨form, rest, -, hsites, -⟩
    exact apart_of_sites hsites
  -- What a widening leaves can be parsed again, which is where the next one begins.
  rcases patchClass_of_parse hone hparse with ⟨middle, hmiddle, -, hkept, hparse₁⟩
  rcases patchClass_of_parse hother hparse₁ with ⟨left, hleft, -, hkept₂, hparse₂⟩
  rcases patchClass_of_parse hall hparse with ⟨left', hleft', -, hkept', hparse'⟩
  rw [ClassLayout.widened_union h hapart hvisibility] at hparse₂
  -- Both files have the layout of the union, and neither was changed outside the flag words.
  have hsame : left = left' := by
    refine ClassLayout.bytes_ext hparse₂ hparse' (fun i hi => ?_)
    rw [ClassLayout.outside_iff (ClassLayout.offsets_widened both layout)] at hi
    have hfirst := (ClassLayout.outside_iff (ClassLayout.offsets_widened first layout) i).mpr hi
    rw [hkept₂ i hfirst, hkept i hi, hkept' i hi]
  exact ⟨middle, left, hmiddle, hleft, hsame ▸ hleft'⟩

/-- Widening steps compose and commute. Two sets that are not empty and whose namespaces do not
    conflict have a union, the same in either order, and all three have wideners. Of a class file no
    method of which has more than one visibility, the same is left by the two wideners one after the
    other, in either order, and by the widener of the union, and none of them fails. -/
theorem patchClass_union (first second : DirectiveSet) (hfirst : first.isEmpty = false)
    (hsecond : second.isEmpty = false) (hagrees : first.Agrees second) :
    ∃ both one other all, first.union second = .ok both ∧ second.union first = .ok both ∧
      ofSet first = .ok one ∧ ofSet second = .ok other ∧ ofSet both = .ok all ∧
      ∀ bytes layout, ClassLayout.parse bytes = .ok layout →
        (∀ method ∈ layout.methods, OneVisibility method.access.flags) →
          ∃ left, all.Leaves bytes left ∧
            (∃ middle, one.Leaves bytes middle ∧ other.Leaves middle left) ∧
            ∃ middle, other.Leaves bytes middle ∧ one.Leaves middle left := by
  rcases DirectiveSet.exists_union_iff.mpr hagrees with ⟨both, hunion⟩
  have hunion' := DirectiveSet.union_comm hunion
  rcases exists_ofSet hfirst with ⟨one, hone⟩
  rcases exists_ofSet hsecond with ⟨other, hother⟩
  rcases exists_ofSet (DirectiveSet.isEmpty_union_eq_false hunion hfirst) with ⟨all, hall⟩
  refine ⟨both, one, other, all, hunion, hunion', hone, hother, hall, ?_⟩
  intro bytes layout hparse hvisibility
  -- One order is the lemma; the other is the lemma for the union taken the other way round.
  rcases leaves_union hunion hone hother hall hparse hvisibility with
    ⟨middle, left, hmiddle, hleft, hall₁⟩
  rcases leaves_union hunion' hother hone hall hparse hvisibility with
    ⟨middle', left', hmiddle', hleft', hall₂⟩
  -- Both unions are the same set, so its widener leaves one result only.
  have hsame : left' = left := hall₂.unique hall₁
  exact ⟨left, hall₁, ⟨middle, hmiddle, hleft⟩, middle', hmiddle', hsame ▸ hleft'⟩

/-- A set that asks for the same method to be accessible. -/
def publishedSet : DirectiveSet :=
  .ofDirectives [⟨.member .method ⟨"Box", ⟨"open", "()V"⟩⟩, .accessible, false⟩]

/-- The private method is made final by one set and opened by the other. Together they make it
    public and leave it open, whichever comes first. -/
theorem patchClass_union_privateMethod :
    publishedSet.isEmpty = false ∧ oneMethodSet.isEmpty = false ∧
      publishedSet.Agrees oneMethodSet ∧
      ∃ both published opened all left, publishedSet.union oneMethodSet = .ok both ∧
        ofSet publishedSet = .ok published ∧ ofSet oneMethodSet = .ok opened ∧
        ofSet both = .ok all ∧ all.Leaves oneMethodClass left ∧
        (∃ middle, published.Leaves oneMethodClass middle ∧ opened.Leaves middle left) ∧
        (∃ middle, opened.Leaves oneMethodClass middle ∧ published.Leaves middle left) ∧
        ClassLayout.parse left = .ok ⟨"Box", some "java/lang/Object", [], ⟨54, 0x21⟩, [],
          [⟨⟨"open", "()V"⟩, ⟨66, 0x01⟩⟩], []⟩ := by
  have hpublished : publishedSet.isEmpty = false := by decide
  have hopened : oneMethodSet.isEmpty = false := by decide
  have hagrees : publishedSet.Agrees oneMethodSet := by
    intro ns hns
    cases hns
  have hparse : ClassLayout.parse oneMethodClass = .ok ⟨"Box", some "java/lang/Object", [],
      ⟨54, 0x20⟩, [], [⟨⟨"open", "()V"⟩, ⟨66, 0x02⟩⟩], []⟩ := by decide
  rcases patchClass_union publishedSet oneMethodSet hpublished hopened hagrees with
    ⟨both, published, opened, all, hunion, -, hone, hother, hall, hclass⟩
  rcases hclass _ _ hparse (by decide) with ⟨left, hleft, hfirst, hsecond⟩
  refine ⟨hpublished, hopened, hagrees, both, published, opened, all, left, hunion, hone, hother,
    hall, hleft, hfirst, hsecond, ?_⟩
  rcases patchClass_of_parse hall hparse with ⟨left', hleft', -, -, hlayout⟩
  have hsame : left = left' := hleft.unique hleft'
  -- Together the two sets grant the method both levels.
  have hboth : both = .ofDirectives [⟨.member .method ⟨"Box", ⟨"open", "()V"⟩⟩, .accessible, false⟩,
      ⟨.member .method ⟨"Box", ⟨"open", "()V"⟩⟩, .extendable, false⟩] := by
    cases hunion
    decide
  rw [hsame, hlayout, hboth]
  decide

end Widener

end AccessWidener
