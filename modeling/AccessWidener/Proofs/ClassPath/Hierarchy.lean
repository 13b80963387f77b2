import Mathlib.Logic.Relation
import AccessWidener.ClassPath.Index

/-!
# Hierarchies, Generation by Generation

A hierarchy is listed from a queue that names may enter many times and in which a name counts when it
leaves the queue for the first time. What such a list is can be said without a queue. The supertypes
of a class are its first generation, their supertypes the second, and so on, each in the order of the
classes before; the hierarchy is all generations, one after the other, with every name listed where
it comes up first (`hierarchy_eq`).

Generations repeat what was there before, in a diamond as well as on a cycle, while the queue leaves
out the supertypes of a name that it has listed. That this makes no difference is the point of the
proof. A name that is repeated had its supertypes in an earlier place, so they are repeated as well,
and whoever lists names where they come up first does not notice (`fresh_flatMap`).

There is no end to the generations on a cycle, but the hierarchy is finite, so from some generation
on there is nothing new. As long as a generation brings something new the list grows, so as many
generations as the hierarchy has names are enough.

## Main definitions

* `ClassIndex.Links`, `ClassIndex.Reaches`: A supertype of an indexed class, and what is reached
  through any number of them.
* `ClassIndex.generation`, `ClassIndex.listed`: The names at a number of links, and those at fewer.
* `ClassIndex.fresh`: The names of a list that are new.

## Theorems

* `fresh_flatMap`: The supertypes of what is not new are not new.
* `hierarchy_eq`: A hierarchy is its generations with every name listed once.
* `mem_hierarchy_iff`: It holds exactly what is reached.
* `findSome?_hierarchy_eq_some_iff`: Who searches it searches generation by generation.
-/

namespace AccessWidener

namespace ClassIndex

/-! ### Links -/

/-- An indexed class has a supertype, as its superclass or as an interface. The supertype need not be
    indexed. -/
def Links (index : ClassIndex) (name supertype : String) : Prop :=
  ∃ info, index.get? name = some info ∧
    (info.superName = some supertype ∨ supertype ∈ info.interfaces)

/-- What is reached from a class through any number of links, itself included. -/
def Reaches (index : ClassIndex) : String → String → Prop :=
  Relation.ReflTransGen index.Links

variable {index : ClassIndex} {name supertype : String}

theorem mem_supertypes_iff : supertype ∈ index.supertypes name ↔ index.Links name supertype := by
  rw [supertypes, Links]
  cases index.get? name with
  | none => simp
  | some info =>
      simp only [ClassInfo.supertypes, List.mem_append, Option.mem_toList, Option.some.injEq,
        exists_eq_left']

/-! ### New names -/

/-- The names of a list that do not occur in `seen`, each where it comes up first. -/
def fresh (seen names : List String) : List String :=
  (names.removeAll seen).eraseDups

theorem mem_fresh_iff {seen names : List String} :
    name ∈ fresh seen names ↔ name ∈ names ∧ name ∉ seen := by
  rw [fresh, List.mem_eraseDups, List.removeAll, List.mem_filter]
  simp

theorem fresh_nil (names : List String) : fresh [] names = names.eraseDups := by
  have hkept : names.removeAll [] = names := List.filter_eq_self.mpr fun _ _ => rfl
  rw [fresh, hkept]

theorem fresh_congr {seen seen' : List String} (h : ∀ name, name ∈ seen ↔ name ∈ seen')
    (names : List String) : fresh seen names = fresh seen' names := by
  rw [fresh, fresh, List.removeAll, List.removeAll]
  congr 1
  refine List.filter_congr fun name _ => ?_
  simp only [List.elem_eq_mem, h name]

/-- What is new in two lists: what is new in the first, and what is new in the second after it. -/
theorem fresh_append (seen names names' : List String) :
    fresh seen (names ++ names') = fresh seen names ++ fresh (seen ++ names) names' := by
  have hrest : (names'.removeAll seen).removeAll (names.removeAll seen) =
      names'.removeAll (seen ++ names) := by
    simp only [List.removeAll, List.filter_filter]
    refine List.filter_congr fun name _ => ?_
    by_cases hseen : name ∈ seen <;> simp [hseen]
  rw [fresh, List.removeAll, List.filter_append, ← List.removeAll, ← List.removeAll,
    List.eraseDups_append, hrest]
  rfl

theorem fresh_of_forall_mem {seen names : List String} (h : ∀ name ∈ names, name ∈ seen) :
    fresh seen names = [] := by
  rw [List.eq_nil_iff_forall_not_mem]
  intro name hmem
  rw [mem_fresh_iff] at hmem
  exact hmem.2 (h name hmem.1)

theorem fresh_cons_of_mem {seen : List String} (h : name ∈ seen) (names : List String) :
    fresh seen (name :: names) = fresh seen names := by
  rw [← List.singleton_append, fresh_append, fresh_of_forall_mem (by simpa using h),
    List.nil_append]
  refine fresh_congr (fun other => ?_) names
  rw [List.mem_append, List.mem_singleton]
  exact ⟨fun hother => hother.elim id fun heq => heq ▸ h, Or.inl⟩

theorem fresh_cons_of_not_mem {seen : List String} (h : name ∉ seen) (names : List String) :
    fresh seen (name :: names) = name :: fresh (seen ++ [name]) names := by
  have hname : fresh seen [name] = [name] := by
    rw [fresh, List.removeAll, List.filter_cons_of_pos (by simpa using h)]
    rfl
  rw [← List.singleton_append, fresh_append, hname, List.singleton_append]

/-- What the names of a list lead to is as new as what the new names among them lead to, if whatever
    the old ones lead to is old. -/
theorem fresh_flatMap (next : String → List String) {seen reached : List String}
    (h : ∀ name ∈ seen, ∀ successor ∈ next name, successor ∈ reached) (names : List String) :
    fresh reached (names.flatMap next) = fresh reached ((fresh seen names).flatMap next) := by
  induction names generalizing seen reached with
  | nil => rfl
  | cons name names ih =>
      rw [List.flatMap_cons, fresh_append]
      by_cases hname : name ∈ seen
      · -- A name seen before leads to nothing new: its successors were reached with it.
        rw [fresh_cons_of_mem hname, fresh_of_forall_mem (h name hname), List.nil_append, ← ih h]
        refine fresh_congr (fun other => ?_) _
        rw [List.mem_append]
        exact ⟨fun hother => hother.elim id (h name hname other), Or.inl⟩
      · rw [fresh_cons_of_not_mem hname, List.flatMap_cons, fresh_append]
        congr 1
        refine ih fun other hother successor hsuccessor => ?_
        rw [List.mem_append]
        -- A new name joins the seen ones, its successors the reached ones.
        rcases List.mem_append.mp hother with hseen | hself
        · exact Or.inl (h other hseen successor hsuccessor)
        · rw [List.mem_singleton] at hself
          exact Or.inr (hself ▸ hsuccessor)

/-- A search passes over names that it has seen before. -/
theorem findSome?_fresh {β : Type} {f : String → Option β} {seen : List String}
    (h : ∀ name ∈ seen, f name = none) (names : List String) :
    (fresh seen names).findSome? f = names.findSome? f := by
  induction names generalizing seen with
  | nil => rfl
  | cons name names ih =>
      by_cases hname : name ∈ seen
      · rw [fresh_cons_of_mem hname, ih h, List.findSome?_cons, h name hname]
      · rw [fresh_cons_of_not_mem hname, List.findSome?_cons, List.findSome?_cons]
        cases hvalue : f name with
        | some value => rfl
        | none =>
            refine ih fun other hother => ?_
            rcases List.mem_append.mp hother with hseen | hself
            · exact h other hseen
            · rw [List.mem_singleton] at hself
              -- The name that joins the seen ones has no value either, or the search would be over.
              rw [hself, hvalue]

/-! ### The queue, generation by generation -/

/-- When a part of the queue has been worked off, what was new in it is listed and its supertypes
    have joined the end of the queue. -/
theorem reachFrom_append (index : ClassIndex) (seen queue rest : List String) :
    index.reachFrom seen (queue ++ rest) =
      index.reachFrom (seen ++ fresh seen queue)
        (rest ++ (fresh seen queue).flatMap index.supertypes) := by
  induction queue generalizing seen rest with
  | nil =>
      have hnil : fresh seen [] = [] := rfl
      rw [hnil, List.flatMap_nil, List.append_nil, List.append_nil, List.nil_append]
  | cons name queue ih =>
      rw [List.cons_append, reachFrom]
      by_cases hname : name ∈ seen
      · rw [if_pos hname, fresh_cons_of_mem hname, ih]
      · -- A new name puts its supertypes behind the rest of the queue, one generation further out.
        rw [if_neg hname, fresh_cons_of_not_mem hname, List.append_assoc, ih, List.flatMap_cons,
          List.append_assoc, List.append_assoc, List.singleton_append]

theorem reachFrom_eq (index : ClassIndex) (seen queue : List String) :
    index.reachFrom seen queue = index.reachFrom (seen ++ fresh seen queue)
      ((fresh seen queue).flatMap index.supertypes) := by
  have happend := reachFrom_append index seen queue []
  rw [List.append_nil, List.nil_append] at happend
  exact happend

theorem reachFrom_nil (index : ClassIndex) (seen : List String) :
    index.reachFrom seen [] = seen := by
  rw [reachFrom]

theorem prefix_reachFrom (index : ClassIndex) (seen queue : List String) :
    seen <+: index.reachFrom seen queue := by
  induction seen, queue using reachFrom.induct index with
  | case1 seen => exact ⟨[], by rw [reachFrom_nil, List.append_nil]⟩
  | case2 seen name rest hname ih =>
      rw [reachFrom, if_pos hname]
      exact ih
  | case3 seen name rest hname ih =>
      rw [reachFrom, if_neg hname]
      exact (List.prefix_append seen [name]).trans ih

/-- The names at a number of links from a class, in the order of the classes that link to them. A
    name is repeated if several links lead to it. -/
def generation (index : ClassIndex) (name : String) : Nat → List String
  | 0 => [name]
  | n + 1 => (generation index name n).flatMap index.supertypes

/-- The names of the first `n` generations, each where it comes up first. -/
def listed (index : ClassIndex) (name : String) (n : Nat) : List String :=
  ((List.range n).flatMap (index.generation name)).eraseDups

theorem mem_listed_iff {n : Nat} :
    supertype ∈ index.listed name n ↔ ∃ m < n, supertype ∈ index.generation name m := by
  rw [listed, List.mem_eraseDups, List.mem_flatMap]
  simp only [List.mem_range]

theorem listed_succ (index : ClassIndex) (name : String) (n : Nat) :
    index.listed name (n + 1) =
      index.listed name n ++ fresh (index.listed name n) (index.generation name n) := by
  have hmem : ∀ other, other ∈ (List.range n).flatMap (index.generation name) ↔
      other ∈ index.listed name n := fun other => List.mem_eraseDups.symm
  rw [listed, List.range_succ, List.flatMap_append, List.eraseDups_append, List.flatMap_singleton,
    ← fresh, fresh_congr hmem, ← listed]

theorem mem_generation_succ {n : Nat} (hname : supertype ∈ index.generation name n)
    {next : String} (hnext : next ∈ index.supertypes supertype) :
    next ∈ index.generation name (n + 1) :=
  List.mem_flatMap.mpr ⟨supertype, hname, hnext⟩

/-- After any number of generations the queue may be taken to be the next one, repetitions
    included. -/
theorem hierarchy_eq_reachFrom (index : ClassIndex) (name : String) (n : Nat) :
    index.hierarchy name = index.reachFrom (index.listed name n) (index.generation name n) := by
  induction n with
  | zero => rfl
  | succ n ih =>
      -- Whatever the listed names lead to is in the generations so far.
      have hclosed : ∀ other ∈ index.listed name n, ∀ next ∈ index.supertypes other,
          next ∈ index.listed name (n + 1) := by
        intro other hother next hnext
        rcases mem_listed_iff.mp hother with ⟨m, hm, hmem⟩
        exact mem_listed_iff.mpr ⟨m + 1, by omega, mem_generation_succ hmem hnext⟩
      rw [ih, reachFrom_eq, ← listed_succ, reachFrom_eq, ← fresh_flatMap _ hclosed, ← reachFrom_eq]
      rfl

theorem listed_prefix_hierarchy (index : ClassIndex) (name : String) (n : Nat) :
    index.listed name n <+: index.hierarchy name := by
  rw [hierarchy_eq_reachFrom index name n]
  exact prefix_reachFrom ..

/-- A generation without new names is the last one that matters. -/
theorem hierarchy_eq_of_fresh_eq_nil {n : Nat}
    (h : fresh (index.listed name n) (index.generation name n) = []) :
    index.hierarchy name = index.listed name n := by
  rw [hierarchy_eq_reachFrom index name n, reachFrom_eq, h, List.append_nil, List.flatMap_nil,
    reachFrom_nil]

/-- One of the first generations has nothing new, or there are as many names as generations. -/
theorem exists_fresh_eq_nil_or_le_length (index : ClassIndex) (name : String) (n : Nat) :
    (∃ m < n, fresh (index.listed name m) (index.generation name m) = []) ∨
      n ≤ (index.listed name n).length := by
  induction n with
  | zero => exact Or.inr (Nat.zero_le _)
  | succ n ih =>
      by_cases hnew : fresh (index.listed name n) (index.generation name n) = []
      · exact Or.inl ⟨n, by omega, hnew⟩
      · rcases ih with ⟨m, hm, hnil⟩ | hlength
        · exact Or.inl ⟨m, by omega, hnil⟩
        · -- Every generation so far brought a new name, so one is listed for each.
          have hpos := List.length_pos_iff.mpr hnew
          rw [listed_succ, List.length_append]
          exact Or.inr (by omega)

theorem listed_prefix_listed (index : ClassIndex) (name : String) {m n : Nat} (h : m ≤ n) :
    index.listed name m <+: index.listed name n := by
  induction h with
  | refl => exact List.prefix_rfl
  | step _ ih =>
      rw [listed_succ]
      exact ih.trans (List.prefix_append _ _)

/-- A hierarchy is its generations, one after the other, with every name listed where it comes up
    first. As many generations as it has names are enough. -/
theorem hierarchy_eq {n : Nat} (h : (index.hierarchy name).length ≤ n) :
    index.hierarchy name = index.listed name n := by
  rcases exists_fresh_eq_nil_or_le_length index name (n + 1) with ⟨m, hm, hfresh⟩ | hlength
  · -- The hierarchy ends with a generation, and what is listed later lies in between.
    rw [hierarchy_eq_of_fresh_eq_nil hfresh]
    have hlonger := listed_prefix_listed index name (show m ≤ n by omega)
    have hshorter := (listed_prefix_hierarchy index name n).length_le
    rw [hierarchy_eq_of_fresh_eq_nil hfresh] at hshorter
    exact hlonger.eq_of_length_le hshorter
  · have hshorter := (listed_prefix_hierarchy index name (n + 1)).length_le
    omega

/-- A hierarchy begins with the class itself. -/
theorem exists_hierarchy_eq_cons (index : ClassIndex) (name : String) :
    ∃ rest, index.hierarchy name = name :: rest := by
  rcases listed_prefix_hierarchy index name 1 with ⟨rest, hrest⟩
  exact ⟨rest, hrest.symm⟩

/-- The hierarchy of a class that is not indexed holds nothing else. -/
theorem hierarchy_of_not_mem (h : name ∉ index.classes) : index.hierarchy name = [name] := by
  have hnext : index.generation name 1 = [] := by
    rw [generation, generation, List.flatMap_singleton, supertypes_of_not_mem h]
  rw [hierarchy_eq_of_fresh_eq_nil (n := 1) (by rw [hnext]; rfl)]
  rfl

/-! ### Searching a hierarchy -/

theorem exists_mem_generation_iff :
    (∃ n, supertype ∈ index.generation name n) ↔ index.Reaches name supertype := by
  constructor
  · rintro ⟨n, hmem⟩
    induction n generalizing supertype with
    | zero =>
        rw [List.mem_singleton.mp hmem]
        exact Relation.ReflTransGen.refl
    | succ n ih =>
        rcases List.mem_flatMap.mp hmem with ⟨between, hbetween, hlink⟩
        exact (ih hbetween).tail (mem_supertypes_iff.mp hlink)
  · intro hreaches
    induction hreaches with
    | refl => exact ⟨0, List.mem_singleton_self name⟩
    | tail _ hlink ih =>
        rcases ih with ⟨n, hmem⟩
        exact ⟨n + 1, mem_generation_succ hmem (mem_supertypes_iff.mpr hlink)⟩

/-- A hierarchy holds exactly what is reached from the class. -/
theorem mem_hierarchy_iff : supertype ∈ index.hierarchy name ↔ index.Reaches name supertype := by
  rw [← exists_mem_generation_iff]
  constructor
  · intro hmem
    rw [hierarchy_eq (Nat.le_refl _), mem_listed_iff] at hmem
    rcases hmem with ⟨n, -, hmem⟩
    exact ⟨n, hmem⟩
  · rintro ⟨n, hmem⟩
    rw [hierarchy_eq (n := (index.hierarchy name).length + (n + 1)) (by omega), mem_listed_iff]
    exact ⟨n, by omega, hmem⟩

variable {β : Type} {f : String → Option β} {value : β}

theorem findSome?_flatMap_range_eq_none_iff {generations : Nat → List String} {n : Nat} :
    ((List.range n).flatMap generations).findSome? f = none ↔
      ∀ m < n, (generations m).findSome? f = none := by
  simp only [List.findSome?_eq_none_iff, List.mem_flatMap, List.mem_range, forall_exists_index,
    and_imp]
  exact ⟨fun h m hm name => h name m hm, fun h name m hm => h m hm name⟩

theorem findSome?_flatMap_range_eq_some_iff {generations : Nat → List String} {n : Nat} :
    ((List.range n).flatMap generations).findSome? f = some value ↔
      ∃ m < n, (∀ k < m, (generations k).findSome? f = none) ∧
        (generations m).findSome? f = some value := by
  induction n with
  | zero => simp
  | succ n ih =>
      rw [List.range_succ, List.flatMap_append, List.flatMap_singleton, List.findSome?_append,
        Option.or_eq_some_iff, ih, findSome?_flatMap_range_eq_none_iff]
      constructor
      · rintro (⟨m, hm, hfirst⟩ | hlast)
        · exact ⟨m, by omega, hfirst⟩
        · exact ⟨n, by omega, hlast⟩
      · rintro ⟨m, hm, hfirst⟩
        rcases Nat.lt_succ_iff_lt_or_eq.mp hm with hlt | rfl
        · exact Or.inl ⟨m, hlt, hfirst⟩
        · exact Or.inr hfirst

/-- Searching a hierarchy is searching one generation after the other, each in its own order. -/
theorem findSome?_hierarchy_eq_some_iff :
    (index.hierarchy name).findSome? f = some value ↔
      ∃ n, (∀ m < n, (index.generation name m).findSome? f = none) ∧
        (index.generation name n).findSome? f = some value := by
  have hfind : ∀ n, (index.listed name n).findSome? f = some value ↔
      ∃ m < n, (∀ k < m, (index.generation name k).findSome? f = none) ∧
        (index.generation name m).findSome? f = some value := by
    intro n
    rw [listed, ← fresh_nil, findSome?_fresh (by simp), findSome?_flatMap_range_eq_some_iff]
  constructor
  · intro hvalue
    rw [hierarchy_eq (Nat.le_refl _), hfind] at hvalue
    rcases hvalue with ⟨n, -, hfirst⟩
    exact ⟨n, hfirst⟩
  · rintro ⟨n, hfirst⟩
    -- Enough generations are listed once the walk went past this one.
    rw [hierarchy_eq (n := (index.hierarchy name).length + (n + 1)) (by omega), hfind]
    exact ⟨n, by omega, hfirst⟩

end ClassIndex

end AccessWidener
