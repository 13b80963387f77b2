import AccessWidener.Proofs.Widening.Archive
import AccessWidener.Proofs.Widening.Touched

/-!
# What Widening Achieves

What somebody who asked for a level of a target can rely on afterwards, said about the class files
in an archive and not about the rules that were applied to them: the class is public, the member
that was named can be reached, overridden or assigned. That other levels of the target, and other
targets of the class, were asked for at the same time does not take anything away.

## Main definitions

* `ClassLayout.Covers`, `Archive.Covers`: A class file, or every class file of a class in an
  archive, gives what a level of a target asks for.

## Theorems

* `covers_widened`: A widened layout covers what the set asks for.
* `covers_map_rewrite`: A rewritten archive covers what the set asks for.
-/

namespace AccessWidener

open Flags

/-- A flag word of a member gives what a level asks for. -/
def MemberGives (level : Access) (flags : UInt16) : Prop :=
  match level with
  | .accessible => IsPublic flags
  | .extendable => IsOpen flags
  | .mutable => has flags finalBit = false

/-- A class file gives what a level of a target asks for. The class is public, and not final if the
    class or a method is to be extendable. If the target is a member, the first one declared with
    its signature gives what the level asks for. -/
def ClassLayout.Covers (layout : ClassLayout) (target : Target) (level : Access) : Prop :=
  IsPublic layout.access.flags ∧
    (level = .extendable → has layout.access.flags finalBit = false) ∧
    ∀ kind ref, target = .member kind ref → ∀ member,
      layout.member? kind ref.signature = some member → MemberGives level member.access.flags

/-- An archive gives what a level of a target asks for. Every entry whose path is that of the owner
    is a class file, and covers the target if it is the class file of the owner. -/
def Archive.Covers (archive : Archive) (target : Target) (level : Access) : Prop :=
  ∀ entry ∈ archive, entry.isDirectory = false → classAtPath? entry.name = some target.owner →
    ∃ layout, ClassLayout.parse entry.contents = .ok layout ∧
      (layout.name = target.owner → layout.Covers target level)

/-! ### Class files -/

/-- The member found in a widened layout is the widened one. -/
theorem member?_widened {set : DirectiveSet} {layout : ClassLayout} {kind : MemberKind}
    {signature : Signature} {member : MemberLayout}
    (h : (layout.widened set).member? kind signature = some member) :
    ∃ declared, layout.member? kind signature = some declared ∧
      member.access.flags = widenMember kind declared.access.flags signature.name
        (set.grantOf (.member kind ⟨layout.name, signature⟩)).access layout.isInterface := by
  rw [ClassLayout.member?_widened_eq] at h
  rcases Option.map_eq_some_iff.mp h with ⟨declared, hdeclared, rfl⟩
  have hname := (ClassLayout.member?_eq_some hdeclared).2
  refine ⟨declared, hdeclared, ?_⟩
  rw [ClassLayout.widenDeclared, hname, if_pos hdeclared]

/-- A widened member gives every level that it is granted. -/
theorem memberGives_widenMember {kind : MemberKind} {level : Access} {access : AccessSet}
    (happlies : level.appliesTo (.member kind) = true) (hlevel : access.contains level = true)
    (flags : UInt16) (name : String) (inInterface : Bool) :
    MemberGives level (widenMember kind flags name access inInterface) := by
  cases kind with
  | method =>
      -- Each level promises what its rule leaves, and one level does not apply to the kind.
      cases level with
      | accessible => exact isPublic_widenMethod hlevel flags name inInterface
      | extendable => exact isOpen_widenMethod hlevel flags name inInterface
      | mutable => cases happlies
  | field =>
      cases level with
      | accessible => exact isPublic_widenField hlevel flags
      | extendable => cases happlies
      | mutable => exact final_widenField hlevel flags

namespace DirectiveSet

variable {set : DirectiveSet} {target : Target} {level : Access}

/-- Something is asked of every class that is a target or owns one. -/
theorem isEmpty_typeAccess_owner (h : (set.grantOf target).access.contains level = true) :
    (set.typeAccess target.owner).isEmpty = false := by
  rw [← Bool.not_eq_true, isEmpty_typeAccess, AccessSet.isEmpty_iff]
  rintro ⟨hgrant, htypes⟩
  have hmem := mem_toList_of_contains h
  have htype : target = .type target.owner := owner_eq_of_kind_type (htypes _ hmem rfl)
  rw [htype, hgrant level] at h
  cases h

/-- A class is to be extendable if it or a method of it is. -/
theorem extendable_typeAccess_owner (h : (set.grantOf target).access.contains .extendable = true)
    (happlies : Access.extendable.appliesTo target.kind = true) :
    (set.typeAccess target.owner).extendable = true := by
  rw [extendable_typeAccess]
  cases target with
  | type owner => exact Or.inl h
  | member kind ref =>
      cases kind with
      | method => exact Or.inr ⟨(.member .method ref, _), mem_toList_of_contains h, rfl, rfl, h⟩
      | field => cases happlies

/-- A widened layout covers what the set asks for. -/
theorem covers_widened (hlevel : (set.grantOf target).access.contains level = true)
    (happlies : level.appliesTo target.kind = true) {layout : ClassLayout}
    (hname : layout.name = target.owner) : (layout.widened set).Covers target level := by
  refine ⟨?_, fun hext => ?_, fun kind ref htarget member hmember => ?_⟩
  · rw [ClassLayout.widened, hname]
    -- Any grant at all under this owner makes the class public.
    exact isPublic_widenClass (isEmpty_typeAccess_owner hlevel) _
  · subst hext
    rw [ClassLayout.widened, hname]
    exact final_widenClass (extendable_typeAccess_owner hlevel happlies) _
  · subst htarget
    -- The member found after widening is the declared one under the rule of its grant.
    rcases member?_widened hmember with ⟨declared, -, hflags⟩
    rw [hflags]
    rcases ref with ⟨owner, signature⟩
    rw [show layout.name = owner from hname]
    exact memberGives_widenMember happlies hlevel _ _ _

end DirectiveSet

/-! ### Archives -/

namespace Widener

variable {set : DirectiveSet} {widener : Widener} {target : Target} {level : Access}

/-- The class files of owners may have to change. -/
theorem touches_owner (hset : ofSet set = .ok widener)
    (hlevel : (set.grantOf target).access.contains level = true) :
    widener.touches target.owner = true := by
  have howned : set.owned target.owner ≠ [] :=
    List.ne_nil_of_mem ((DirectiveSet.mem_owned_iff set target.owner _).mpr
      ⟨DirectiveSet.mem_toList_of_contains hlevel, rfl⟩)
  rw [touches_iff hset]
  exact Or.inl ((DirectiveSet.mem_owners_iff _).mpr howned)

theorem name_rewrite (entry : ArchiveEntry) : (widener.rewrite entry).name = entry.name := by
  rw [rewrite]
  split <;> rfl

/-- A rewritten archive covers what the set asks for, if the entries concerned were class files. -/
theorem covers_map_rewrite (hset : ofSet set = .ok widener)
    (hlevel : (set.grantOf target).access.contains level = true)
    (happlies : level.appliesTo target.kind = true) {archive : Archive}
    (hparses : ∀ entry ∈ archive, widener.concerns entry = true →
      ∃ layout, ClassLayout.parse entry.contents = .ok layout) :
    Archive.Covers (archive.map widener.rewrite) target level := by
  intro rewritten hmem hdirectory hpath
  rcases List.mem_map.mp hmem with ⟨entry, hentry, rfl⟩
  rw [ArchiveEntry.isDirectory, name_rewrite] at hdirectory
  rw [name_rewrite] at hpath
  -- Rewriting keeps the name, and by its name the entry is that of an owner.
  have hconcerns : widener.concerns entry = true := by
    rw [concerns, ArchiveEntry.isDirectory, hdirectory, hpath, Option.any_some,
      touches_owner hset hlevel]
    rfl
  rcases hparses entry hentry hconcerns with ⟨layout, hparse⟩
  rcases patchClass_of_parse hset hparse with ⟨patched, hpatched, -, -, hlayout⟩
  refine ⟨layout.widened set, ?_, fun hname => ?_⟩
  · rw [rewrite, hconcerns, if_pos rfl, hpatched]
    exact hlayout
  · exact DirectiveSet.covers_widened hlevel happlies hname

end Widener

end AccessWidener
