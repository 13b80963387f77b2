import AccessWidener.Mapping.Descriptor

/-!
# Renaming Twice

A descriptor that was renamed can be renamed again, and the question is when the two steps are one.
The second step looks for references in a text that the first one made. It finds the same places as
long as no new name holds a semicolon, which would close its reference too early; the letter `L`
inside a name does no harm, since nothing is looked for there. At each place it sees the new name,
so what has to agree are the maps, and only on the names that the descriptor refers to.

A name that a map does not know stays as it is. Where the third map is meant to know the same names
as the first one, a chain of maps therefore has to lose sight of a name everywhere or nowhere.

## Main definitions

* `Descriptor.references`: The names that a descriptor refers to.
* `Descriptor.Composes`: Two maps after each other make of a name what a third one makes of it.
* `Descriptor.Chains`: They do, and lose sight of a name everywhere or nowhere.

## Theorems

* `renameChars_open`, `renameChars_closed`: What a reference becomes that is not closed, or closed.
* `rename_rename_of_composes`: Renaming twice is renaming once.
* `rename_rename`: In particular it is along a chain.
-/

namespace AccessWidener

namespace Descriptor

/-- The names of the closed references of a text, in order. While a reference is being read, `open?`
    holds the letters of its name so far, the last one first. -/
def referencesChars (open? : Option (List Char)) : List Char → List String
  | [] => []
  | c :: rest =>
    match open? with
    | none => referencesChars (if c = 'L' then some [] else none) rest
    | some letters =>
      if c = ';' then String.ofList letters.reverse :: referencesChars none rest
      else referencesChars (some (c :: letters)) rest

/-- The class names that a descriptor refers to. -/
def references (descriptor : String) : List String :=
  referencesChars none descriptor.toList

/-- Two maps after each other make of a name what `both` makes of it, and its name in between can
    stand in a descriptor. -/
def Composes (first second both : String → Option String) (name : List Char) : Prop :=
  ';' ∉ renamed first name ∧ renamed second (renamed first name) = renamed both name

/-- A name goes through `first` and then `second` to where `both` takes it, and its name in between
    can stand in a descriptor. A name that `first` does not know is unknown to the others. -/
def Chains (first second both : String → Option String) (name : String) : Prop :=
  match first name with
  | none => second name = none ∧ both name = none
  | some between => ';' ∉ between.toList ∧ (second between).isSome ∧ both name = second between

variable {names : String → Option String}

/-- Letters without a semicolon do not close a reference. -/
theorem renameChars_open {word : List Char} (h : ';' ∉ word) (letters : List Char) :
    renameChars names (some letters) word = letters.reverse ++ word := by
  induction word generalizing letters with
  | nil => rw [renameChars, List.append_nil]
  | cons c word ih =>
      rw [List.mem_cons, not_or] at h
      rw [renameChars, if_neg (Ne.symm h.1), ih h.2, List.reverse_cons, List.append_assoc,
        List.singleton_append]

/-- The first semicolon closes a reference, and the name in it is replaced. -/
theorem renameChars_closed {word : List Char} (h : ';' ∉ word) (letters rest : List Char) :
    renameChars names (some letters) (word ++ ';' :: rest) =
      renamed names (letters.reverse ++ word) ++ ';' :: renameChars names none rest := by
  induction word generalizing letters with
  | nil => rw [List.nil_append, renameChars, if_pos rfl, List.append_nil]
  | cons c word ih =>
      rw [List.mem_cons, not_or] at h
      rw [List.cons_append, renameChars, if_neg (Ne.symm h.1), ih h.2, List.reverse_cons,
        List.append_assoc, List.singleton_append]

variable {first second both : String → Option String}

/-- A chained name is renamed in two steps as in one. -/
theorem composes_of_chains {name : List Char} (hname : ';' ∉ name)
    (h : Chains first second both (String.ofList name)) : Composes first second both name := by
  unfold Composes
  unfold Chains at h
  cases hfirst : first (String.ofList name) with
  | none =>
      rw [hfirst] at h
      -- A name that the first lookup does not know is passed on as it is.
      have hstays : renamed first name = name := by rw [renamed, hfirst]; rfl
      rw [hstays, renamed, renamed, h.1, h.2]
      exact ⟨hname, rfl⟩
  | some between =>
      rw [hfirst] at h
      -- What the first lookup gives is a name that the second one knows as well.
      have hbetween : renamed first name = between.toList := by rw [renamed, hfirst]; rfl
      rcases Option.isSome_iff_exists.mp h.2.1 with ⟨last, hlast⟩
      rw [hbetween, renamed, renamed, String.ofList_toList, h.2.2, hlast]
      exact ⟨h.1, rfl⟩

/-- The second step reads what the first one has put out. Where the first step has letters of a name
    in hand, the second one has seen the opening of the reference only. -/
theorem renameChars_renameChars (text : List Char) (open? : Option (List Char))
    (hopen : ∀ letters ∈ open?, ';' ∉ letters)
    (h : ∀ name ∈ referencesChars open? text,
      ';' ∉ name.toList → Composes first second both name.toList) :
    renameChars second (open?.map fun _ => []) (renameChars first open? text) =
      renameChars both open? text := by
  -- Both runs walk the text together; either both or neither are inside a reference.
  induction text generalizing open? with
  | nil =>
      cases open? with
      | none => rfl
      | some letters =>
          -- The text ends inside a reference, and the name so far is copied.
          have hletters : ';' ∉ letters.reverse := by
            rw [List.mem_reverse]
            exact hopen letters rfl
          simp only [renameChars, Option.map_some]
          rw [renameChars_open hletters, List.reverse_nil, List.nil_append]
  | cons c rest ih =>
      cases open? with
      | none =>
          rw [referencesChars] at h
          by_cases hc : c = 'L'
          · rw [if_pos hc] at h
            have hrest := ih (some []) (by simp) h
            -- The letter opens a reference in both runs.
            simp only [renameChars, Option.map_none, if_pos hc, if_true]
            exact congrArg ('L' :: ·) hrest
          · rw [if_neg hc] at h
            have hrest := ih none (by simp) h
            simp only [renameChars, Option.map_none, if_neg hc]
            exact congrArg (c :: ·) hrest
      | some letters =>
          have hletters := hopen letters rfl
          rw [referencesChars] at h
          by_cases hc : c = ';'
          · rw [if_pos hc, List.forall_mem_cons] at h
            -- The reference ends, and what the first run wrote for it has no semicolon, so the
            -- second run reads it as one name again.
            have hname := h.1
            rw [String.toList_ofList, List.mem_reverse] at hname
            rcases hname hletters with ⟨hbetween, hboth⟩
            have hrest := ih none (by simp) h.2
            simp only [renameChars, Option.map_some, if_pos hc]
            rw [renameChars_closed hbetween, List.reverse_nil, List.nil_append, hboth]
            exact congrArg (fun text => renamed both letters.reverse ++ ';' :: text) hrest
          · rw [if_neg hc] at h
            -- One more letter of a name, none of which has been written yet.
            have hmore : ';' ∉ c :: letters := by
              rw [List.mem_cons, not_or]
              exact ⟨Ne.symm hc, hletters⟩
            have hrest := ih (some (c :: letters)) (by simpa using hmore) h
            simp only [renameChars, Option.map_some, if_neg hc]
            exact hrest

/-- Renaming twice is renaming once, if the maps compose on every name that the descriptor refers
    to. -/
theorem rename_rename_of_composes {descriptor : String}
    (h : ∀ name ∈ references descriptor,
      ';' ∉ name.toList → Composes first second both name.toList) :
    rename second (rename first descriptor) = rename both descriptor := by
  rw [rename, rename, rename, String.toList_ofList]
  have htext := renameChars_renameChars descriptor.toList none (by simp) h
  rw [Option.map_none] at htext
  rw [htext]

/-- Renaming twice is renaming once, if every name that the descriptor refers to is chained. -/
theorem rename_rename {descriptor : String}
    (h : ∀ name ∈ references descriptor, Chains first second both name) :
    rename second (rename first descriptor) = rename both descriptor := by
  refine rename_rename_of_composes fun name hmem hname => composes_of_chains hname ?_
  rw [String.ofList_toList]
  exact h name hmem

end Descriptor

end AccessWidener
