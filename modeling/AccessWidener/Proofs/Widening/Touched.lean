import AccessWidener.Proofs.Widening.Writes

/-!
# Classes That Are Touched

A widener reads the class files of touched classes only. It decides by names alone, before any file
is opened: the owners of its targets are touched, and so is whatever precedes a dollar sign in the
name of an owner, because such a class may list the owner as nested. Every dollar sign counts, the
first and the last character of a name included, so a name is touched in one of two ways that can
be said without cutting anything: it is an owner, or it becomes one when a dollar sign and some
text are put behind it.

## Main definitions

* `NestedUnder`: A name goes on from another one with a dollar sign.

## Theorems

* `mem_enclosingNames_iff`: The names in front of the dollar signs of a name.
* `Widener.touches_iff`: Which classes are touched.
-/

namespace AccessWidener

/-- The name goes on from the outer one with a dollar sign and some text, which may be empty. -/
def NestedUnder (name outer : String) : Prop :=
  ∃ rest, name = outer ++ "$" ++ rest

/-- A cut of a name is the cut at its first character, if that is a dollar sign, or a cut of the
    rest. -/
theorem mem_enclosingNames_cons (c : Char) (rest outer : List Char) :
    outer ∈ enclosingNames (c :: rest) ↔
      (c = '$' ∧ outer = []) ∨ ∃ shorter ∈ enclosingNames rest, c :: shorter = outer := by
  rw [enclosingNames]
  by_cases hc : c = '$'
  · rw [if_pos hc, List.mem_cons, List.mem_map]
    simp only [hc, true_and]
  · rw [if_neg hc, List.mem_map]
    simp only [hc, false_and, false_or]

/-- A name is cut at each of its dollar signs, wherever they stand. -/
theorem mem_enclosingNames_iff (name outer : List Char) :
    outer ∈ enclosingNames name ↔ ∃ rest, name = outer ++ '$' :: rest := by
  induction name generalizing outer with
  | nil => simp [enclosingNames]
  | cons c later ih =>
      rw [mem_enclosingNames_cons]
      constructor
      · rintro (⟨rfl, rfl⟩ | ⟨shorter, hmem, rfl⟩)
        · exact ⟨later, rfl⟩
        · -- The name is cut further on, and its first character stands before the cut.
          rcases (ih shorter).mp hmem with ⟨rest, hrest⟩
          exact ⟨rest, by rw [hrest, List.cons_append]⟩
      · rintro ⟨rest, hname⟩
        cases outer with
        | nil =>
            rw [List.nil_append, List.cons.injEq] at hname
            exact Or.inl ⟨hname.1, rfl⟩
        | cons d shorter =>
            rw [List.cons_append, List.cons.injEq] at hname
            rcases hname with ⟨rfl, hlater⟩
            exact Or.inr ⟨shorter, (ih shorter).mpr ⟨rest, hlater⟩, rfl⟩

/-- A string is among the cuts of a name exactly if the name is nested under it. -/
theorem mem_enclosing_iff (name outer : String) :
    outer ∈ (enclosingNames name.toList).map String.ofList ↔ NestedUnder name outer := by
  rw [List.mem_map]
  constructor
  · rintro ⟨cut, hmem, rfl⟩
    rcases (mem_enclosingNames_iff _ _).mp hmem with ⟨rest, hname⟩
    refine ⟨String.ofList rest, String.toList_injective ?_⟩
    simp [hname]
  · rintro ⟨rest, rfl⟩
    refine ⟨outer.toList, (mem_enclosingNames_iff _ _).mpr ⟨rest.toList, ?_⟩, String.ofList_toList⟩
    simp

/-! ### Owners -/

namespace DirectiveSet

variable {set : DirectiveSet}

/-- An owner is a class that owns a target. -/
theorem mem_owners_iff (name : String) : name ∈ set.owners ↔ set.owned name ≠ [] := by
  rw [owners, Std.ExtTreeSet.mem_ofList, List.contains_iff_mem, List.mem_map]
  constructor
  · rintro ⟨entry, hmem, rfl⟩
    exact List.ne_nil_of_mem ((mem_owned_iff set _ entry).mpr ⟨hmem, rfl⟩)
  · intro hne
    rcases List.exists_mem_of_ne_nil _ hne with ⟨entry, hmem⟩
    rcases (mem_owned_iff set name entry).mp hmem with ⟨hlist, howner⟩
    exact ⟨entry, hlist, howner⟩

/-- The owners are the classes that have a plan. -/
theorem mem_keys_plans_iff (name : String) : name ∈ set.plans.keys ↔ name ∈ set.owners := by
  rw [Std.ExtTreeMap.mem_keys, Std.ExtTreeMap.mem_iff_isSome_getElem?, Option.isSome_iff_ne_none,
    Ne, getElem?_plans_eq_none_iff, mem_owners_iff]

end DirectiveSet

namespace Widener

variable {set : DirectiveSet} {widener : Widener}

/-- A class is touched if it is an owner, or if an owner is nested under it. -/
theorem touches_iff (hset : ofSet set = .ok widener) (name : String) :
    widener.touches name = true ↔
      name ∈ set.owners ∨ ∃ owner ∈ set.owners, NestedUnder owner name := by
  unfold ofSet at hset
  split at hset
  next => cases hset
  next =>
    cases hset
    simp only [touches, Std.ExtTreeSet.contains_ofList, List.contains_iff_mem, List.mem_flatMap,
      List.mem_cons, mem_enclosing_iff, DirectiveSet.mem_keys_plans_iff]
    constructor
    · rintro ⟨owner, howner, rfl | hnested⟩
      · exact Or.inl howner
      · exact Or.inr ⟨owner, howner, hnested⟩
    · rintro (howner | ⟨owner, howner, hnested⟩)
      · exact ⟨name, howner, Or.inl rfl⟩
      · exact ⟨owner, howner, Or.inr hnested⟩

end Widener

end AccessWidener
