import AccessWidener.ClassPath.Resolver
import AccessWidener.Proofs.ClassPath.Hierarchy

/-!
# What a Member Resolves To

A member is looked for in two places that know nothing of each other: a mapping table, which may
name classes that are nowhere indexed, and an index, which holds members that are nowhere mapped. The
search has a shortcut for the owner and gives up early if the owner is not indexed. Neither changes
the result, since a class that is not indexed leads nowhere and declares nothing
(`resolveName_eq`). What is left is a search of the hierarchy for a mapping, and if there is none,
the question whether the member is declared at all.

So the new name is that of the first class with a mapping, counted by generations and within one in
its order, however many nearer classes declare the member. Without a mapping a declaration
anywhere is enough to keep the name.

An index only grows by classes with new names. What a class links to, and what it declares, stays,
so whatever resolves before resolves afterwards. Its new name may become another one, because more
classes are reached.

## Main definitions

* `ClassIndex.Grows`: Indexing of further classes.
* `ClassPathResolver.FirstMapped`: The first new name of a member by generations.

## Theorems

* `resolveName_eq`: Resolving a name searches the hierarchy.
* `get?_of_grows`, `reaches_of_grows`: What an index holds stays when it grows.
* `FirstMapped.unique`: There is one first new name at most.
* `resolveMember_exact`: When a member resolves, and to what.
-/

namespace AccessWidener

namespace ClassIndex

/-! ### Growing indices -/

/-- An index after further classes were indexed, by themselves or with an archive. -/
inductive Grows (index : ClassIndex) : ClassIndex → Prop where
  | refl : Grows index index
  | insert {grown : ClassIndex} (layout : ClassLayout) (h : Grows index grown) :
    Grows index (grown.insert layout)
  | addPath {grown further : ClassIndex} {tree : FileTree} {path : Path} (h : Grows index grown)
    (hadd : addPath tree grown path = .ok further) : Grows index further

variable {index grown : ClassIndex} {name supertype : String} {info : ClassInfo}

theorem get?_insert (layout : ClassLayout) (h : index.get? name = some info) :
    (index.insert layout).get? name = some info := by
  have hmem : name ∈ index.classes := by
    rw [Std.ExtTreeMap.mem_iff_isSome_getElem?, ← get?, h]
    rfl
  rw [get?, insert, Std.ExtTreeMap.getElem?_insertIfNew, if_neg, ← get?, h]
  rintro ⟨heq, hnot⟩
  rw [Std.LawfulEqCmp.compare_eq_iff_eq.mp heq] at hnot
  exact hnot hmem

theorem get?_addEntry (entry : ArchiveEntry) (h : index.get? name = some info) :
    (index.addEntry entry).get? name = some info := by
  unfold addEntry
  split
  · exact h
  · split
    · exact get?_insert _ h
    · exact h

theorem get?_addArchive (archive : Archive) (h : index.get? name = some info) :
    (index.addArchive archive).get? name = some info := by
  induction archive generalizing index with
  | nil => exact h
  | cons entry archive ih => exact ih (get?_addEntry entry h)

theorem get?_addPath {tree : FileTree} {path : Path} (hadd : addPath tree index path = .ok grown)
    (h : index.get? name = some info) : grown.get? name = some info := by
  unfold addPath at hadd
  split at hadd
  · cases hadd
    exact get?_addArchive _ h
  · cases hadd
  · cases hadd
    exact h

/-- What is recorded of a class stays. -/
theorem get?_of_grows (hgrows : index.Grows grown) (h : index.get? name = some info) :
    grown.get? name = some info := by
  induction hgrows with
  | refl => exact h
  | insert layout _ ih => exact get?_insert layout ih
  | addPath _ hadd ih => exact get?_addPath hadd ih

theorem contains_eq_isSome (index : ClassIndex) (name : String) :
    index.contains name = (index.get? name).isSome := by
  rw [contains, get?, Std.ExtTreeMap.contains_eq_isSome_getElem?]

theorem contains_of_grows (hgrows : index.Grows grown) (h : index.contains name = true) :
    grown.contains name = true := by
  rw [contains_eq_isSome, Option.isSome_iff_exists] at h
  rcases h with ⟨info, hinfo⟩
  rw [contains_eq_isSome, get?_of_grows hgrows hinfo]
  rfl

theorem reaches_of_grows (hgrows : index.Grows grown) (h : index.Reaches name supertype) :
    grown.Reaches name supertype := by
  induction h with
  | refl => exact Relation.ReflTransGen.refl
  | tail _ hlink ih =>
      rcases hlink with ⟨info, hinfo, hnext⟩
      exact ih.tail ⟨info, get?_of_grows hgrows hinfo, hnext⟩

theorem contains_of_get? (h : index.get? name = some info) : index.contains name = true := by
  rw [contains_eq_isSome, h]
  rfl

/-- A class that is not indexed leads nowhere. -/
theorem eq_of_reaches (hnot : index.contains name = false) (h : index.Reaches name supertype) :
    supertype = name := by
  rw [contains_eq_isSome, Option.isSome_eq_false_iff, Option.isNone_iff_eq_none] at hnot
  rcases Relation.ReflTransGen.cases_head h with heq | ⟨between, ⟨info, hinfo, -⟩, -⟩
  · exact heq.symm
  · rw [hnot] at hinfo
    cases hinfo

end ClassIndex

namespace ClassPathResolver

variable {resolver : ClassPathResolver} {index grown : ClassIndex} {table : MappingTable}
variable {kind : MemberKind} {ref : MemberRef} {signature : Signature} {owner : String}

/-- A class declares a member if the member is among those recorded of it. -/
theorem declares_iff : declares index kind owner signature = true ↔
    ∃ info, index.get? owner = some info ∧ signature ∈ info.members kind := by
  rw [declares, Option.any_eq_true]
  simp only [ClassInfo.declares, Std.ExtTreeSet.mem_iff_contains]

/-! ### Searching a hierarchy -/

/-- Resolving a name searches the hierarchy of the owner for a mapping, and if there is none, for a
    declaration. That the owner is looked at on its own before makes no difference, and neither
    does giving up on an owner that is not indexed. -/
theorem resolveName_eq (resolver : ClassPathResolver) (kind : MemberKind) (ref : MemberRef) :
    resolver.resolveName kind ref =
      (firstMapped? resolver.table kind ref.signature (resolver.index.hierarchy ref.owner)).or
        (if (resolver.index.hierarchy ref.owner).any
            (declares resolver.index kind · ref.signature) then some ref.signature.name
          else none) := by
  unfold resolveName
  cases hown : resolver.table.member? kind ref with
  | some mapped =>
      -- The owner is at the front of its hierarchy, so the search ends there as well.
      rcases ClassIndex.exists_hierarchy_eq_cons resolver.index ref.owner with ⟨rest, hrest⟩
      rw [hrest, firstMapped?, List.findSome?_cons, hown]
      rfl
  | none =>
      cases hindexed : resolver.index.contains ref.owner with
      | false =>
          -- The hierarchy is the owner alone, which has no new name and declares nothing.
          have hnot : ref.owner ∉ resolver.index.classes := by
            rw [Std.ExtTreeMap.mem_iff_contains, ← ClassIndex.contains, hindexed]
            exact Bool.false_ne_true
          have hdeclares : declares resolver.index kind ref.owner ref.signature = false := by
            rw [Bool.eq_false_iff, ne_eq, declares_iff]
            rintro ⟨info, hinfo, -⟩
            rw [ClassIndex.contains_of_get? hinfo] at hindexed
            cases hindexed
          rw [ClassIndex.hierarchy_of_not_mem hnot, firstMapped?, List.findSome?_singleton, hown,
            List.any_cons, List.any_nil, hdeclares]
          rfl
      | true =>
          simp only [Bool.not_true, Bool.false_eq_true, if_false]
          cases firstMapped? resolver.table kind ref.signature
            (resolver.index.hierarchy ref.owner) <;> rfl

/-- A name resolves if some class in the hierarchy maps or declares the member. -/
theorem isSome_resolveName_iff : (resolver.resolveName kind ref).isSome = true ↔
    ∃ owner, resolver.index.Reaches ref.owner owner ∧
      ((resolver.table.member? kind ⟨owner, ref.signature⟩).isSome = true ∨
        ∃ info, resolver.index.get? owner = some info ∧ ref.signature ∈ info.members kind) := by
  have hdeclared : (if (resolver.index.hierarchy ref.owner).any
      (declares resolver.index kind · ref.signature) then some ref.signature.name
        else none).isSome = true ↔
      ∃ owner ∈ resolver.index.hierarchy ref.owner,
        declares resolver.index kind owner ref.signature = true := by
    rw [← List.any_eq_true]
    split <;> simp_all
  rw [resolveName_eq, Option.isSome_or, Bool.or_eq_true, firstMapped?, List.findSome?_isSome_iff,
    hdeclared]
  simp only [ClassIndex.mem_hierarchy_iff, declares_iff]
  -- The two searches go through the same classes, so they are one search for either reason.
  constructor
  · rintro (⟨owner, hreaches, hmapped⟩ | ⟨owner, hreaches, hdeclares⟩)
    · exact ⟨owner, hreaches, Or.inl hmapped⟩
    · exact ⟨owner, hreaches, Or.inr hdeclares⟩
  · rintro ⟨owner, hreaches, hmapped | hdeclares⟩
    · exact Or.inl ⟨owner, hreaches, hmapped⟩
    · exact Or.inr ⟨owner, hreaches, hdeclares⟩

/-- The first new name of a member, by generations. No class of an earlier generation has one, and
    in the last generation it is the first one in the order of the generation. -/
def FirstMapped (resolver : ClassPathResolver) (kind : MemberKind) (ref : MemberRef)
    (name : String) : Prop :=
  ∃ n, (∀ m < n, firstMapped? resolver.table kind ref.signature
      (resolver.index.generation ref.owner m) = none) ∧
    firstMapped? resolver.table kind ref.signature (resolver.index.generation ref.owner n) =
      some name

/-- There is one first new name at most. -/
theorem FirstMapped.unique {name name' : String} (h : resolver.FirstMapped kind ref name)
    (h' : resolver.FirstMapped kind ref name') : name = name' := by
  rcases h with ⟨n, hbefore, hfirst⟩
  rcases h' with ⟨n', hbefore', hfirst'⟩
  -- Of two different generations the later one is not the first with a new name.
  rcases Nat.lt_trichotomy n n' with hlt | rfl | hgt
  · rw [hbefore' n hlt] at hfirst
    cases hfirst
  · exact Option.some.inj (hfirst.symm.trans hfirst')
  · rw [hbefore n' hgt] at hfirst'
    cases hfirst'

/-- The name after resolution is the first new one, and the old one if there is no new one. -/
theorem resolveName_cases {name : String} (h : resolver.resolveName kind ref = some name) :
    resolver.FirstMapped kind ref name ∨
      (∀ owner, resolver.index.Reaches ref.owner owner →
        resolver.table.member? kind ⟨owner, ref.signature⟩ = none) ∧
      name = ref.signature.name := by
  rw [resolveName_eq, Option.or_eq_some_iff] at h
  rcases h with hmapped | ⟨hnone, hkept⟩
  · exact Or.inl (ClassIndex.findSome?_hierarchy_eq_some_iff.mp hmapped)
  · rw [firstMapped?, List.findSome?_eq_none_iff] at hnone
    rw [Option.ite_none_right_eq_some, Option.some.injEq] at hkept
    exact Or.inr ⟨fun owner hreaches =>
      hnone owner (ClassIndex.mem_hierarchy_iff.mpr hreaches), hkept.2.symm⟩

/-! ### Growing indices -/

theorem isSome_resolveName_of_grows (hgrows : resolver.index.Grows grown)
    (h : (resolver.resolveName kind ref).isSome = true) :
    (resolveName { resolver with index := grown } kind ref).isSome = true := by
  rw [isSome_resolveName_iff] at h ⊢
  rcases h with ⟨owner, hreaches, hfound⟩
  refine ⟨owner, ClassIndex.reaches_of_grows hgrows hreaches, ?_⟩
  -- The same class serves: it is still reached, and what was recorded of it is still there.
  refine hfound.imp id (fun ⟨info, hinfo, hmember⟩ => ?_)
  exact ⟨info, ClassIndex.get?_of_grows hgrows hinfo, hmember⟩

theorem isSome_resolveType_iff {name : String} : (resolver.resolveType name).isSome = true ↔
    (resolver.table.type? name).isSome = true ∨ resolver.index.contains name = true := by
  unfold resolveType
  cases resolver.table.type? name with
  | some mapped => simp
  | none => split <;> simp_all

/-- Whatever the table and the index are, cycles, diamonds and missing classes included. A member
    resolves if its owner is mapped for it, or if its owner is indexed and a class that is reached
    from it maps or declares the member. Its new name is the first one by generations, and its old
    one if no class that is reached has a new one; its descriptor is renamed by the table. Indexing
    further classes leaves every member and every class resolved that was so before. -/
theorem resolveMember_exact (resolver : ClassPathResolver) (kind : MemberKind) (ref : MemberRef) :
    ((resolver.resolveMember kind ref).isSome = true ↔
      (resolver.table.member? kind ref).isSome = true ∨
        resolver.index.contains ref.owner = true ∧
          ∃ owner, resolver.index.Reaches ref.owner owner ∧
            ((resolver.table.member? kind ⟨owner, ref.signature⟩).isSome = true ∨
              ∃ info, resolver.index.get? owner = some info ∧
                ref.signature ∈ info.members kind)) ∧
    (∀ found, resolver.resolveMember kind ref = some found →
      found.descriptor = resolver.table.rename ref.signature.descriptor ∧
        (resolver.FirstMapped kind ref found.name ∨
          (∀ owner, resolver.index.Reaches ref.owner owner →
            resolver.table.member? kind ⟨owner, ref.signature⟩ = none) ∧
          found.name = ref.signature.name)) ∧
    ∀ grown, resolver.index.Grows grown →
      ((resolver.resolveMember kind ref).isSome = true →
        (resolveMember { resolver with index := grown } kind ref).isSome = true) ∧
      ∀ name, (resolver.resolveType name).isSome = true →
        (resolveType { resolver with index := grown } name).isSome = true := by
  refine ⟨?_, fun found hfound => ?_, fun grown hgrows => ⟨fun hsome => ?_, fun name hsome => ?_⟩⟩
  · rw [resolveMember, Option.isSome_map, isSome_resolveName_iff]
    constructor
    · rintro ⟨owner, hreaches, hfound⟩
      cases hindexed : resolver.index.contains ref.owner with
      | true => exact Or.inr ⟨rfl, owner, hreaches, hfound⟩
      | false =>
          -- Only the owner itself is reached, and it declares nothing.
          rw [ClassIndex.eq_of_reaches hindexed hreaches] at hfound
          rcases hfound with hmapped | ⟨info, hinfo, -⟩
          · exact Or.inl hmapped
          · rw [ClassIndex.contains_of_get? hinfo] at hindexed
            cases hindexed
    · rintro (hmapped | ⟨-, hfound⟩)
      · -- The owner reaches itself without a link, indexed or not.
        exact ⟨ref.owner, Relation.ReflTransGen.refl, Or.inl hmapped⟩
      · exact hfound
  · rw [resolveMember, Option.map_eq_some_iff] at hfound
    rcases hfound with ⟨name, hname, rfl⟩
    exact ⟨rfl, resolveName_cases hname⟩
  · rw [resolveMember, Option.isSome_map] at hsome ⊢
    exact isSome_resolveName_of_grows hgrows hsome
  · rw [isSome_resolveType_iff] at hsome ⊢
    exact hsome.imp id (ClassIndex.contains_of_grows hgrows)

/-- The area of a shape. -/
def areaSignature : Signature := ⟨"area", "()LShape;"⟩

/-- The outline of a box, a field without a new name. -/
def outlineSignature : Signature := ⟨"outline", "LShape;"⟩

/-- A class that declares its area. -/
def shapedClass (superName : String) (interfaces : List String) (fields : List Signature) :
    ClassInfo where
  superName := some superName
  interfaces
  methods := .ofList [areaSignature]
  fields := .ofList fields

/-- A square and a box that are each other's superclasses and declare their areas. A square is also
    a shape, which is not indexed but has a new name for its area. Only a box has an outline. -/
def squareResolver : ClassPathResolver where
  table :=
    (MappingTable.addType {} "Shape" "Form").addMember .method ⟨"Shape", areaSignature⟩ "surface"
  index := { classes := .ofList [
    ("Square", shapedClass "Box" ["Shape"] []),
    ("Box", shapedClass "Square" [] [outlineSignature])] }

/-- A class file of the shape, without the method. -/
def shapeLayout : ClassLayout where
  name := "Shape"
  superName := none
  interfaces := []
  access := ⟨0, 0⟩
  fields := []
  methods := []
  inner := []

/-- The area of the square takes the new name from the shape, although the square and the box are
    nearer and declare it. It also resolves after the shape was indexed. The outline is declared by
    the box and has no new name anywhere, so it keeps the old one, and its type is renamed. -/
theorem resolveMember_exact_square :
    squareResolver.resolveMember .method ⟨"Square", areaSignature⟩ =
        some ⟨"surface", "()LForm;"⟩ ∧
      (resolveMember { squareResolver with index := squareResolver.index.insert shapeLayout }
        .method ⟨"Square", areaSignature⟩).isSome = true ∧
      squareResolver.resolveMember .field ⟨"Square", outlineSignature⟩ =
        some ⟨"outline", "LForm;"⟩ := by
  have hindexed : squareResolver.index.contains "Square" = true := by decide +kernel
  have hsupertypes : "Shape" ∈ squareResolver.index.supertypes "Square" ∧
      "Box" ∈ squareResolver.index.supertypes "Square" := by decide +kernel
  have hshape : squareResolver.index.Reaches "Square" "Shape" :=
    Relation.ReflTransGen.single (ClassIndex.mem_supertypes_iff.mp hsupertypes.1)
  have hbox : squareResolver.index.Reaches "Square" "Box" :=
    Relation.ReflTransGen.single (ClassIndex.mem_supertypes_iff.mp hsupertypes.2)
  have hmapped : squareResolver.table.member? .method ⟨"Shape", areaSignature⟩ =
      some "surface" := by decide +kernel
  have hdeclares : declares squareResolver.index .field "Box" outlineSignature = true := by
    decide +kernel
  rcases resolveMember_exact squareResolver .method ⟨"Square", areaSignature⟩ with
    ⟨harea, hnamed, hgrows⟩
  rcases resolveMember_exact squareResolver .field ⟨"Square", outlineSignature⟩ with
    ⟨houtline, hkept, -⟩
  have hresolved := harea.mpr (Or.inr ⟨hindexed, "Shape", hshape,
    Or.inl (Option.isSome_of_eq_some hmapped)⟩)
  refine ⟨?_, (hgrows _ (.insert shapeLayout .refl)).1 hresolved, ?_⟩
  · rcases Option.isSome_iff_exists.mp hresolved with ⟨⟨name, descriptor⟩, hfound⟩
    -- The first generation with a new name is that of the supertypes.
    have hfirst : squareResolver.FirstMapped .method ⟨"Square", areaSignature⟩ "surface" := by
      refine ⟨1, fun m hm => ?_, by decide +kernel⟩
      rw [Nat.lt_one_iff.mp hm]
      decide +kernel
    have hrenamed : squareResolver.table.rename "()LShape;" = "()LForm;" := by decide +kernel
    rcases hnamed _ hfound with ⟨hdescriptor, hname | ⟨hnone, -⟩⟩
    · have hname : name = "surface" := hname.unique hfirst
      have hform : descriptor = "()LForm;" := hdescriptor.trans hrenamed
      rw [hfound, hname, hform]
    · rw [hnone "Shape" hshape] at hmapped
      cases hmapped
  · have hresolved := houtline.mpr (Or.inr ⟨hindexed, "Box", hbox,
      Or.inr (declares_iff.mp hdeclares)⟩)
    rcases Option.isSome_iff_exists.mp hresolved with ⟨⟨name, descriptor⟩, hfound⟩
    have hrenamed : squareResolver.table.rename "LShape;" = "LForm;" := by decide +kernel
    rcases hkept _ hfound with ⟨hdescriptor, ⟨n, -, hmapped⟩ | ⟨-, hname⟩⟩
    · -- The table holds no field at all, so no generation has a new name for one.
      rcases List.exists_of_findSome?_eq_some hmapped with ⟨owner, -, howner⟩
      have hnone : squareResolver.table.member? .field ⟨owner, outlineSignature⟩ = none :=
        Std.ExtTreeMap.getElem?_empty
      rw [hnone] at howner
      cases howner
    · have hform : descriptor = "LForm;" := hdescriptor.trans hrenamed
      have hname : name = "outline" := hname
      rw [hfound, hname, hform]

end ClassPathResolver

end AccessWidener
