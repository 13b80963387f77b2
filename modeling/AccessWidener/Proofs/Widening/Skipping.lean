import AccessWidener.Proofs.ClassFile.Words
import AccessWidener.Proofs.Widening.ClassFile
import AccessWidener.Proofs.Widening.Touched

/-!
# Class Files That Are Skipped

In an archive only the class files of touched classes are opened. What is lost by that? If a class
is not touched, neither the class itself is an owner nor any class that is nested under it, by the
spelling of its name. Widening the file all the same would therefore ask nothing of the class, of
its members, or of the entries for itself and for its nested classes. The one thing it could change
is an entry that lists a class of a foreign name, which is why the statement speaks of names and not
of files: the filter knows where a name has its dollar signs, and not what a file lists.

## Theorems

* `typeAccess_of_not_mem_owners`: Nothing is asked of a class that is no owner.
* `widened_of_not_mem_owners`: A class that is no owner is widened in its entries only.
* `exists_inner_of_getElem?_ne`: Each byte that changes in such a file belongs to an entry.
* `skipped_exact`: Which classes are touched, and what widening would change in the others.
-/

namespace AccessWidener

namespace DirectiveSet

variable {set : DirectiveSet} {name : String}

/-- A class that is no owner has no plan. -/
theorem getElem?_plans_of_not_mem_owners (h : name ∉ set.owners) : set.plans[name]? = none := by
  rw [getElem?_plans_eq_none_iff]
  by_contra hne
  exact h ((mem_owners_iff name).mpr hne)

/-- Nothing is asked of a class that is no owner. -/
theorem typeAccess_of_not_mem_owners (h : name ∉ set.owners) : set.typeAccess name = .empty :=
  typeAccess_eq_empty (getElem?_plans_of_not_mem_owners h)

/-- Nothing is granted to the members of a class that is no owner. -/
theorem grantOf_of_not_mem_owners (h : name ∉ set.owners) (kind : MemberKind)
    (signature : Signature) :
    (set.grantOf (.member kind ⟨name, signature⟩)).access = .empty := by
  refine grantOf_of_not_planned (fun plan hplan => ?_)
  rw [getElem?_plans_of_not_mem_owners h] at hplan
  cases hplan

end DirectiveSet

namespace ClassLayout

variable {set : DirectiveSet} {layout : ClassLayout}

theorem widenDeclared_of_not_mem_owners (h : layout.name ∉ set.owners) (kind : MemberKind)
    (member : MemberLayout) : layout.widenDeclared set kind member = member := by
  unfold widenDeclared
  split
  · rw [DirectiveSet.grantOf_of_not_mem_owners h, widenMember_empty]
  · rfl

theorem widenInner_of_not_mem_owners {inner : InnerLayout} (h : inner.name ∉ set.owners) :
    widenInner set inner = inner := by
  unfold widenInner
  rw [DirectiveSet.typeAccess_of_not_mem_owners h, widenClass_empty]

/-- A class that is no owner is widened in its entries for nested classes only. -/
theorem widened_of_not_mem_owners (h : layout.name ∉ set.owners) :
    layout.widened set = { layout with inner := layout.inner.map (widenInner set) } := by
  have hmembers : ∀ kind (members : List MemberLayout),
      members.map (layout.widenDeclared set kind) = members := by
    intro kind members
    rw [List.map_congr_left (fun member _ => widenDeclared_of_not_mem_owners h kind member),
      List.map_id']
  unfold widened
  rw [DirectiveSet.typeAccess_of_not_mem_owners h, widenClass_empty, hmembers, hmembers]

/-- If only entries are widened, each byte that changes belongs to an entry, and the entry is for an
    owner. -/
theorem exists_inner_of_getElem?_ne {bytes patched : Bytes} (hparse : parse bytes = .ok layout)
    (hpatched : parse patched = .ok { layout with inner := layout.inner.map (widenInner set) })
    (houtside : ∀ i, (∀ site ∈ layout.sites, i ≠ site.offset ∧ i ≠ site.offset + 1) →
      patched[i]? = bytes[i]?) {i : Nat} (hne : patched[i]? ≠ bytes[i]?) :
    ∃ inner ∈ layout.inner, inner.name ∈ set.owners ∧
      (i = inner.access.offset ∨ i = inner.access.offset + 1) := by
  rcases exists_site_of_getElem?_ne hparse hpatched houtside hne with
    ⟨site, hsite, hword, hmissing⟩
  simp only [sites, List.mem_append, List.mem_map, not_or] at hsite hmissing
  rcases hsite with hkept | ⟨inner, hmem, rfl⟩
  · -- The words of the class and of its members are the same in both files.
    exact absurd hkept (by simpa only [List.mem_append, List.mem_map, not_or] using hmissing.1)
  · refine ⟨inner, hmem, ?_, hword⟩
    by_contra howner
    exact hmissing.2 ⟨_, ⟨inner, hmem, rfl⟩, by rw [widenInner_of_not_mem_owners howner]⟩

end ClassLayout

namespace Widener

open ClassLayout

variable {set : DirectiveSet} {widener : Widener}

/-- No owner is a class that is not touched, or nested under one. -/
theorem not_mem_owners_of_not_touches (hset : ofSet set = .ok widener) {name other : String}
    (h : widener.touches name = false) (hother : other = name ∨ NestedUnder other name) :
    other ∉ set.owners := by
  intro howner
  rw [← Bool.not_eq_true, touches_iff hset] at h
  rcases hother with rfl | hnested
  · exact h (Or.inl howner)
  · exact h (Or.inr ⟨other, howner, hnested⟩)

/-- The filter by names loses nothing. A class is touched exactly if it is an owner, or if an owner
    is spelled like it with a dollar sign and any text behind. If the file of a class that is not
    touched were widened all the same, the flag words of the class, of its members, and of the
    entries for itself and its nested classes would stay as they are, and each byte that changes
    would belong to an entry for an owner that is neither the class nor nested under it. -/
theorem skipped_exact (set : DirectiveSet) (hset : set.isEmpty = false) :
    ∃ widener, ofSet set = .ok widener ∧
      (∀ name, widener.touches name = true ↔
        name ∈ set.owners ∨ ∃ rest, name ++ "$" ++ rest ∈ set.owners) ∧
      ∀ (bytes : Bytes) (layout : ClassLayout), ClassLayout.parse bytes = .ok layout →
        widener.touches layout.name = false →
          ∃ patched : Bytes,
            (∀ order, widener.patchClass bytes order =
              (patched, .ok (decide (patched ≠ bytes)))) ∧
            ClassLayout.parse patched =
              .ok { layout with inner := layout.inner.map (widenInner set) } ∧
            (∀ inner ∈ layout.inner,
              inner.name = layout.name ∨ NestedUnder inner.name layout.name →
                widenInner set inner = inner) ∧
            ∀ i, patched[i]? ≠ bytes[i]? →
              ∃ inner ∈ layout.inner, inner.name ∈ set.owners ∧ inner.name ≠ layout.name ∧
                ¬NestedUnder inner.name layout.name ∧
                (i = inner.access.offset ∨ i = inner.access.offset + 1) := by
  rcases exists_ofSet hset with ⟨widener, hwidener⟩
  refine ⟨widener, hwidener, fun name => ?_, fun bytes layout hparse hskipped => ?_⟩
  · -- An owner nested under the name is the name, a dollar sign and more.
    rw [touches_iff hwidener]
    constructor
    · rintro (howner | ⟨owner, howner, rest, rfl⟩)
      · exact Or.inl howner
      · exact Or.inr ⟨rest, howner⟩
    · rintro (howner | ⟨rest, howner⟩)
      · exact Or.inl howner
      · exact Or.inr ⟨_, howner, rest, rfl⟩
  · rcases patchClass_of_parse hwidener hparse with ⟨patched, hpatched, -, houtside, hlayout⟩
    -- What is skipped is no owner and has no owner below it, so the class, its members and the
    -- entries nested in it keep their flags.
    have hforeign : ∀ other, other ∈ set.owners →
        other ≠ layout.name ∧ ¬NestedUnder other layout.name := by
      intro other howner
      exact ⟨fun heq => not_mem_owners_of_not_touches hwidener hskipped (Or.inl heq) howner,
        fun hnested => not_mem_owners_of_not_touches hwidener hskipped (Or.inr hnested) howner⟩
    have hname : layout.name ∉ set.owners :=
      not_mem_owners_of_not_touches hwidener hskipped (Or.inl rfl)
    rw [widened_of_not_mem_owners hname] at hlayout
    refine ⟨patched, hpatched, hlayout, fun inner _ hinner => ?_, fun i hne => ?_⟩
    · exact widenInner_of_not_mem_owners (not_mem_owners_of_not_touches hwidener hskipped hinner)
    · -- A byte that differs lies in the word of an entry whose class is an owner, hence a foreign
      -- one.
      rcases exists_inner_of_getElem?_ne hparse hlayout houtside hne with
        ⟨inner, hmem, howner, hword⟩
      rcases hforeign _ howner with ⟨hother, hnested⟩
      exact ⟨inner, hmem, howner, hother, hnested, hword⟩

/-- A set that asks for one method of a class whose name begins and ends with a dollar sign. -/
def dollarSet : DirectiveSet :=
  .ofDirectives [⟨.member .method ⟨"$Box$$Lid$", ⟨"open", "()V"⟩⟩, .extendable, false⟩]

/-- A class of another name that lists the owner and a nested class of its own. -/
def listingClass : Bytes :=
  Blueprint.assemble
    { name := "Lid", flags := 0x20, superName := none
      inner := [⟨"$Box$$Lid$", 0x1A⟩, ⟨"Lid$Hinge", 0x12⟩] }

/-- Every dollar sign of the owner counts. The other class is skipped, and of its two entries only
    the one for the owner would be widened. -/
theorem skipped_exact_dollars :
    dollarSet.isEmpty = false ∧ ∃ widener, ofSet dollarSet = .ok widener ∧
      (∀ name ∈ ["", "$Box", "$Box$", "$Box$$Lid", "$Box$$Lid$"], widener.touches name = true) ∧
      widener.touches "Lid" = false ∧
      ∃ patched, widener.patchClass listingClass =
          (patched, .ok (decide (patched ≠ listingClass))) ∧
        ClassLayout.parse patched = .ok ⟨"Lid", none, [], ⟨91, 0x20⟩, [], [],
          [⟨"$Box$$Lid$", ⟨119, 0x09⟩⟩, ⟨"Lid$Hinge", ⟨127, 0x12⟩⟩]⟩ := by
  have hset : dollarSet.isEmpty = false := by decide +kernel
  have hparse : ClassLayout.parse listingClass = .ok ⟨"Lid", none, [], ⟨91, 0x20⟩, [], [],
      [⟨"$Box$$Lid$", ⟨119, 0x1A⟩⟩, ⟨"Lid$Hinge", ⟨127, 0x12⟩⟩]⟩ := by decide +kernel
  -- Every dollar sign counts, the first and the last one too.
  have howner : ∀ name ∈ ["", "$Box", "$Box$", "$Box$$Lid", "$Box$$Lid$"],
      name ∈ dollarSet.owners ∨ ∃ rest, name ++ "$" ++ rest ∈ dollarSet.owners := by
    simp only [List.forall_mem_cons]
    exact ⟨Or.inr ⟨"Box$$Lid$", by decide +kernel⟩, Or.inr ⟨"$Lid$", by decide +kernel⟩,
      Or.inr ⟨"Lid$", by decide +kernel⟩, Or.inr ⟨"", by decide +kernel⟩,
      Or.inl (by decide +kernel), by simp⟩
  have hother : (ofSet dollarSet).map (·.touches "Lid") = .ok false := by decide +kernel
  rcases skipped_exact dollarSet hset with ⟨widener, hwidener, htouches, hskipped⟩
  rw [hwidener] at hother
  rcases hskipped _ _ hparse (Except.ok.inj hother) with ⟨patched, hpatched, hlayout, -, -⟩
  refine ⟨hset, widener, hwidener, fun name hmem => (htouches name).mpr (howner name hmem),
    Except.ok.inj hother, patched, hpatched .sorted, ?_⟩
  rw [hlayout]
  decide +kernel

end Widener

end AccessWidener
