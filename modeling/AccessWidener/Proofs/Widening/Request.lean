import AccessWidener.Proofs.ClassFile.Flags
import AccessWidener.Proofs.Directive.Grants

/-!
# What a Directive Set Asks

What a directive set asks of a class file, said without reference to how a widener goes about it:
no plans, no order, no writes. A class is asked what it is granted itself, joined with what the
requests for its members imply. A declared member is asked what its target is granted, provided
that no member in front of it has the same signature. An entry for a nested class is asked what
that class is asked.

`ClassLayout.widened` puts this together. It is a layout computed from a layout, and that a widener
does what it is asked to do is an equation with `widened` on one side.

## Main definitions

* `DirectiveSet.impliedAccess`, `DirectiveSet.typeAccess`: What is asked of a class.
* `ClassLayout.widened`: A layout with the flags that a set asks for.

## Theorems

* `isEmpty_typeAccess`: Nothing is asked of a class that is neither granted anything nor owns a
  target.
* `extendable_typeAccess`: A class is to be extendable by a grant of its own or of a method.
* `member?_widened_eq`, `offsets_widened`: Widening keeps the order and the places of members.
* `widenClass_congr`: The rule for classes sees only whether anything is asked, and whether the
  class is to be extendable.
-/

namespace AccessWidener

namespace DirectiveSet

/-- The access to a class that the requests for its members imply: extendable if some method of it
    is to be extendable, and accessible if it owns any other target. -/
def impliedAccess (set : DirectiveSet) (owner : String) : AccessSet :=
  if set.toList.any fun entry =>
      entry.1.owner = owner && entry.1.kind = .member .method && entry.2.access.extendable then
    .singleton .extendable
  else if set.toList.any fun entry => entry.1.owner = owner && entry.1.kind ≠ .type then
    .singleton .accessible
  else .empty

/-- What is asked of a class, by a grant of its own or through its members. -/
def typeAccess (set : DirectiveSet) (owner : String) : AccessSet :=
  (set.grantOf (.type owner)).access.union (set.impliedAccess owner)

end DirectiveSet

namespace ClassLayout

/-- A declared member with the flags that a set asks for, which only the first one of its kind and
    signature is given. -/
def widenDeclared (set : DirectiveSet) (layout : ClassLayout) (kind : MemberKind)
    (member : MemberLayout) : MemberLayout :=
  if layout.member? kind member.signature = some member then
    { member with access := { member.access with
        flags := widenMember kind member.access.flags member.signature.name
          (set.grantOf (.member kind ⟨layout.name, member.signature⟩)).access layout.isInterface } }
  else member

/-- An entry for a nested class with the flags that a set asks for. -/
def widenInner (set : DirectiveSet) (inner : InnerLayout) : InnerLayout :=
  { inner with access :=
      { inner.access with flags := widenClass inner.access.flags (set.typeAccess inner.name) } }

/-- The layout with the flags that a set asks for, at the same places. -/
def widened (set : DirectiveSet) (layout : ClassLayout) : ClassLayout :=
  { layout with
    access := { layout.access with
      flags := widenClass layout.access.flags (set.typeAccess layout.name) }
    fields := layout.fields.map (layout.widenDeclared set .field)
    methods := layout.methods.map (layout.widenDeclared set .method)
    inner := layout.inner.map (widenInner set) }

/-! ### What widening keeps -/

section

variable (set : DirectiveSet) (layout : ClassLayout)

theorem isInterface_widened : (layout.widened set).isInterface = layout.isInterface :=
  interface_widenClass layout.access.flags (set.typeAccess layout.name)

theorem signature_widenDeclared (kind : MemberKind) (member : MemberLayout) :
    (layout.widenDeclared set kind member).signature = member.signature := by
  rw [widenDeclared]
  split <;> rfl

theorem offset_widenDeclared (kind : MemberKind) (member : MemberLayout) :
    (layout.widenDeclared set kind member).access.offset = member.access.offset := by
  rw [widenDeclared]
  split <;> rfl

theorem members_widened (kind : MemberKind) :
    (layout.widened set).members kind = (layout.members kind).map (layout.widenDeclared set kind) := by
  cases kind <;> rfl

/-- Widening keeps signatures, so a search stops at the same member. -/
theorem member?_widened_eq (kind : MemberKind) (signature : Signature) :
    (layout.widened set).member? kind signature =
      (layout.member? kind signature).map (layout.widenDeclared set kind) := by
  rw [member?, members_widened, List.find?_map]
  simp only [Function.comp_def, signature_widenDeclared]
  rfl

/-- Widening keeps the places of flag words. -/
theorem offsets_widened :
    (layout.widened set).sites.map (·.offset) = layout.sites.map (·.offset) := by
  simp only [sites, widened, widenInner, List.map_append, List.map_cons, List.map_map,
    Function.comp_def, offset_widenDeclared]

end

end ClassLayout

/-! ### What the rule for classes sees -/

theorem widenClass_congr {access access' : AccessSet} (hempty : access.isEmpty = access'.isEmpty)
    (hextendable : access.extendable = access'.extendable) (flags : UInt16) :
    widenClass flags access = widenClass flags access' := by
  rw [widenClass, widenClass, hempty, hextendable]

theorem widenClass_empty (flags : UInt16) : widenClass flags .empty = flags := rfl

theorem widenMember_empty (kind : MemberKind) (flags : UInt16) (name : String)
    (inInterface : Bool) :
    widenMember kind flags name .empty inInterface = flags := by
  cases kind <;> rfl

namespace DirectiveSet

theorem isEmpty_union (a b : AccessSet) :
    (a.union b).isEmpty = true ↔ a.isEmpty = true ∧ b.isEmpty = true := by
  simp only [AccessSet.isEmpty_iff, AccessSet.contains_union, Bool.or_eq_false_iff, forall_and]

theorem isEmpty_impliedAccess (set : DirectiveSet) (owner : String) :
    (set.impliedAccess owner).isEmpty = true ↔
      ∀ entry ∈ set.toList, entry.1.owner = owner → entry.1.kind = .type := by
  rw [impliedAccess]
  split
  next hext =>
    simp only [List.any_eq_true, Bool.and_eq_true, decide_eq_true_eq] at hext
    rcases hext with ⟨entry, hmem, ⟨howner, hkind⟩, -⟩
    refine iff_of_false (by decide) (fun h => ?_)
    rw [h entry hmem howner] at hkind
    cases hkind
  next =>
    -- No method asks the class to be extended; any member at all asks it to be public.
    split
    next hany =>
      simp only [List.any_eq_true, Bool.and_eq_true, decide_eq_true_eq] at hany
      rcases hany with ⟨entry, hmem, howner, hkind⟩
      exact iff_of_false (by decide) (fun h => hkind (h entry hmem howner))
    next hany =>
      simp only [List.any_eq_true, Bool.and_eq_true, decide_eq_true_eq, not_exists, not_and,
        ne_eq, Decidable.not_not] at hany
      exact iff_of_true (by decide) hany

/-- Nothing is asked of a class that is neither granted anything nor owns a target. -/
theorem isEmpty_typeAccess (set : DirectiveSet) (owner : String) :
    (set.typeAccess owner).isEmpty = true ↔
      (set.grantOf (.type owner)).access.isEmpty = true ∧
        ∀ entry ∈ set.toList, entry.1.owner = owner → entry.1.kind = .type := by
  rw [typeAccess, isEmpty_union, isEmpty_impliedAccess]

/-- A class is to be extendable by a grant of its own or of one of its methods. -/
theorem extendable_typeAccess (set : DirectiveSet) (owner : String) :
    (set.typeAccess owner).extendable = true ↔
      (set.grantOf (.type owner)).access.extendable = true ∨
        ∃ entry ∈ set.toList, entry.1.owner = owner ∧ entry.1.kind = .member .method ∧
          entry.2.access.extendable = true := by
  -- The other implied level, that of any member, is not this one.
  have himplied : (set.impliedAccess owner).extendable = set.toList.any fun entry =>
      entry.1.owner = owner && entry.1.kind = .member .method && entry.2.access.extendable := by
    rw [impliedAccess]
    split
    next hext => exact hext.symm
    next hext =>
      rw [Bool.not_eq_true] at hext
      rw [hext]
      split <;> rfl
  rw [typeAccess, AccessSet.union, Bool.or_eq_true, himplied]
  simp only [List.any_eq_true, Bool.and_eq_true, decide_eq_true_eq, and_assoc]

end DirectiveSet

end AccessWidener
