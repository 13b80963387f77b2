import AccessWidener.Proofs.Widening.Coverage

/-!
# Widening Twice

Widening what was widened already changes nothing. Whatever flags a class file starts from, and
whether or not the levels asked for apply to their targets, the flags that a directive set asks for
are fixed points of its rules, so a widened layout asks for itself (`widened_widened`). The rest
follows from what widening does: a class file whose layout has the flags asked for is left as it is,
and an archive of which every entry is left as it is is not written back.

The rules do not look at a flag word alone. The one for methods depends on whether the class is an
interface, and a member is only widened if it is the first one with its signature. Both are seen in
the layout that the first widening left, which is why it matters that widening keeps the interface
bit, all names and signatures, and the order of the members.

## Theorems

* `widenDeclared_again`, `widened_widened`: A widened member, and a widened layout, ask for
  themselves.
* `patchClass_again`: A class file is left as the first widening left it.
* `entryFault?_rewrite`, `rewrite_rewrite`: A rewritten entry can be rewritten, to itself.
* `apply_idempotent`: Widening an archive or a class file again changes nothing.
-/

namespace AccessWidener

namespace ClassLayout

variable (set : DirectiveSet) (layout : ClassLayout)

/-- In a widened layout every member has the flags that are asked for it: the first one with its
    signature was widened to a fixed point of the rule, and of the others nothing is asked. -/
theorem widenDeclared_again (kind : MemberKind) (member : MemberLayout) :
    (layout.widened set).widenDeclared set kind member = member := by
  unfold widenDeclared
  -- The first member with a signature is still the first one.
  by_cases hfirst : (layout.widened set).member? kind member.signature = some member
  · rcases member?_widened hfirst with ⟨declared, -, hflags⟩
    have hname : (layout.widened set).name = layout.name := rfl
    rw [if_pos hfirst, isInterface_widened, hname, hflags, widenMember_widenMember, ← hflags]
  · rw [if_neg hfirst]

theorem widenInner_again (inner : InnerLayout) :
    widenInner set (widenInner set inner) = widenInner set inner := by
  simp only [widenInner, widenClass_widenClass]

/-- A layout asks for itself if its class, each of its members and each of its entries does. -/
theorem widened_eq_self {layout : ClassLayout}
    (hclass : widenClass layout.access.flags (set.typeAccess layout.name) = layout.access.flags)
    (hmembers : ∀ kind member, layout.widenDeclared set kind member = member)
    (hinner : ∀ inner ∈ layout.inner, widenInner set inner = inner) :
    layout.widened set = layout := by
  have hmap : ∀ kind (members : List MemberLayout),
      members.map (layout.widenDeclared set kind) = members := by
    intro kind members
    rw [List.map_congr_left (fun member _ => hmembers kind member), List.map_id']
  have hentries : layout.inner.map (widenInner set) = layout.inner := by
    rw [List.map_congr_left hinner, List.map_id']
  rw [widened, hclass, hmap, hmap, hentries]

/-- A widened layout asks for itself. -/
theorem widened_widened : (layout.widened set).widened set = layout.widened set := by
  refine widened_eq_self set ?_ (widenDeclared_again set layout) (fun inner hmem => ?_)
  · exact widenClass_widenClass layout.access.flags (set.typeAccess layout.name)
  · rcases List.mem_map.mp hmem with ⟨declared, -, rfl⟩
    exact widenInner_again set declared

end ClassLayout

namespace Widener

variable {set : DirectiveSet} {widener : Widener}

/-! ### Class files -/

/-- A class file is left as the first widening left it, whichever order either of them took the
    members in. -/
theorem patchClass_again (hset : ofSet set = .ok widener) {bytes left : Bytes} {changed : Bool}
    {order : MemberOrder} (h : widener.patchClass bytes order = (left, .ok changed))
    (order' : MemberOrder) : widener.patchClass left order' = (left, .ok false) := by
  cases hparse : ClassLayout.parse bytes with
  | error fault =>
      rw [patchClass_of_fault hparse] at h
      cases h
  | ok layout =>
      rcases patchClass_of_parse hset hparse with ⟨patched, hpatched, -, -, hlayout⟩
      -- What is left parses to the widened layout, which asks for itself.
      have hleft : patched = left := by
        rw [hpatched order] at h
        exact congrArg Prod.fst h
      rw [← hleft]
      exact patchClass_of_widened hset hlayout (ClassLayout.widened_widened set layout) order'

/-! ### Archives -/

/-- Whether an entry is concerned is told by its name, which rewriting keeps. -/
theorem concerns_rewrite (entry : ArchiveEntry) :
    widener.concerns (widener.rewrite entry) = widener.concerns entry := by
  rw [concerns, concerns, ArchiveEntry.isDirectory, ArchiveEntry.isDirectory, name_rewrite]

/-- An entry that did not stop the first widening does not stop the second one either, which
    leaves it as it is. -/
theorem rewrite_again (hset : ofSet set = .ok widener) {entry : ArchiveEntry}
    (h : widener.entryFault? entry = none) :
    widener.entryFault? (widener.rewrite entry) = none ∧
      widener.rewrite (widener.rewrite entry) = widener.rewrite entry := by
  by_cases hconcerns : widener.concerns entry = true
  · have hconcerns' : widener.concerns (widener.rewrite entry) = true := by
      rw [concerns_rewrite, hconcerns]
    rcases (entryFault?_eq_none_iff entry).mp h hconcerns with ⟨layout, hparse⟩
    have hagain := patchClass_again hset (rewrite_of_parse hset hconcerns hparse .sorted) .sorted
    constructor
    · rw [entryFault?_eq_none_iff]
      intro _
      -- Bytes that widening leaves without a fault are a class file.
      cases hleft : ClassLayout.parse (widener.rewrite entry).contents with
      | ok layout' => exact ⟨layout', rfl⟩
      | error fault =>
          rw [patchClass_of_fault hleft] at hagain
          cases hagain
    · rw [rewrite, if_pos hconcerns', hagain]
  · rw [Bool.not_eq_true] at hconcerns
    rw [rewrite_of_not_concerns hconcerns]
    exact ⟨h, rewrite_of_not_concerns hconcerns⟩

/-- An archive is left as the first widening left it. -/
theorem apply_again (hset : ofSet set = .ok widener) {tree left : FileTree} {path : Path}
    {changed : Bool} (h : widener.apply tree path = (left, .ok changed)) :
    widener.apply left path = (left, .ok false) := by
  have hfirst := outcome_apply hset tree path
  rw [h] at hfirst
  cases hfirst with
  | rewritten archive _ _ hfree hleft =>
      rw [List.findSome?_eq_none_iff] at hfree
      have hfree' : (archive.map widener.rewrite).findSome? widener.entryFault? = none := by
        rw [List.findSome?_eq_none_iff]
        rintro _ hmem
        rcases List.mem_map.mp hmem with ⟨entry, hentry, rfl⟩
        exact (rewrite_again hset (hfree entry hentry)).1
      have hsame : (archive.map widener.rewrite).map widener.rewrite =
          archive.map widener.rewrite := by
        rw [List.map_map]
        exact List.map_congr_left (fun entry hentry => (rewrite_again hset (hfree entry hentry)).2)
      -- Every entry is left as it is, so the archive is not written back.
      exact apply_of_unchanged hset hleft hfree' hsame

/-- Widening is idempotent. A directive set that is not empty has a widener, and where the widener
    succeeds for an archive it succeeds again, says that nothing changed, and leaves the tree as the
    first widening left it. The same holds for a class file by itself. Nothing is assumed about the
    flags that were there before, and nothing about the levels of the set. -/
theorem apply_idempotent (set : DirectiveSet) (hset : set.isEmpty = false) :
    ∃ widener, ofSet set = .ok widener ∧
      (∀ (tree left : FileTree) (path : Path) (changed : Bool),
        widener.apply tree path = (left, .ok changed) →
          widener.apply left path = (left, .ok false)) ∧
      ∀ (bytes left : Bytes) (order : MemberOrder) (changed : Bool),
        widener.patchClass bytes order = (left, .ok changed) →
          ∀ order', widener.patchClass left order' = (left, .ok false) := by
  rcases exists_ofSet hset with ⟨widener, hwidener⟩
  refine ⟨widener, hwidener, fun tree left path changed h => ?_,
    fun bytes left order changed h order' => ?_⟩
  · exact apply_again hwidener h
  · exact patchClass_again hwidener h order'

/-- A set in which no level applies to its target but that of the method. -/
def unfitSet : DirectiveSet :=
  .ofDirectives [⟨.type "Box", .mutable, false⟩,
    ⟨.member .method ⟨"Box", ⟨"open", "()V"⟩⟩, .accessible, false⟩,
    ⟨.member .field ⟨"Box", ⟨"size", "I"⟩⟩, .extendable, false⟩]

/-- A class with illegal flag words, which declares a method twice and lists itself twice. -/
def illegalClass : Bytes :=
  Blueprint.assemble {
    name := "Box", flags := 0x0017, fields := [⟨⟨"size", "I"⟩, 0x0016⟩],
    methods := [⟨⟨"open", "()V"⟩, 0x8007⟩, ⟨⟨"open", "()V"⟩, 0x0002⟩],
    inner := [⟨"Box", 0x000a⟩, ⟨"Box", 0x0014⟩] }

/-- An archive with that class. -/
def illegalTree : FileTree where
  nodes := [(["app.jar"], .archive [{ name := "Box.class", contents := illegalClass }])]

/-- The class changes once, also if the members of its plan come backwards the second time. -/
theorem apply_idempotent_illegal :
    unfitSet.isEmpty = false ∧ ∃ widener left patched, ofSet unfitSet = .ok widener ∧
      widener.apply illegalTree ⟨"app.jar"⟩ = (left, .ok true) ∧
      widener.apply left ⟨"app.jar"⟩ = (left, .ok false) ∧
      widener.patchClass illegalClass = (patched, .ok true) ∧
      widener.patchClass patched ⟨List.reverse, List.reverse_perm⟩ = (patched, .ok false) := by
  have hset : unfitSet.isEmpty = false := by decide
  rcases apply_idempotent unfitSet hset with ⟨widener, hwidener, harchive, hclass⟩
  -- Both first runs are evaluated; the second ones follow from the theorem.
  have hfirst : (widener.apply illegalTree ⟨"app.jar"⟩).2 = .ok true := by
    cases hwidener
    decide +kernel
  have hpatched : (widener.patchClass illegalClass).2 = .ok true := by
    cases hwidener
    decide +kernel
  exact ⟨hset, widener, _, _, hwidener, Prod.ext rfl hfirst,
    harchive _ _ _ _ (Prod.ext rfl hfirst), Prod.ext rfl hpatched,
    hclass _ _ _ _ (Prod.ext rfl hpatched) _⟩

end Widener

end AccessWidener
