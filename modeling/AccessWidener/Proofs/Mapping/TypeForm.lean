import AccessWidener.Proofs.Mapping.Descriptor

/-!
# Descriptors by Their Grammar

Renaming is a search for the letter `L` and for the semicolon behind it, and it knows nothing of how
a descriptor is built. Of a descriptor that follows the grammar the search finds the class names and
nothing else: no letter of a primitive type is an `L`, brackets and parentheses are passed over, and
a class name is read up to its semicolon, whatever else it holds. So renaming the text of a
descriptor is renaming the classes in its form. The form of a type comes with any rest of the text
(`renameChars_spell`), which is what carries the parameters of a method one after the other.

Texts that follow no grammar are renamed as well, and two laws hold of these too. A map that knows
no name changes nothing. And two maps after each other are one map, which takes a name to what the
second makes of what the first makes of it. For this no new name of the first map may hold a
semicolon, since the second map would read only up to there.

## Main definitions

* `TypeForm`, `DescriptorForm`: The types of the grammar, and the descriptors of fields and methods.
* `TypeForm.spell`, `DescriptorForm.spell`: Their texts.
* `TypeForm.map`, `DescriptorForm.map`: A form with other class names.
* `TypeForm.WellFormed`, `DescriptorForm.WellFormed`: No class name holds a semicolon.

## Theorems

* `renameChars_spell`: Renaming finds the class names of a type.
* `renameChars_none`: A map that knows no name changes nothing.
* `rename_grammar`: Renaming follows the grammar and composes.
-/

namespace AccessWidener

/-- The types that are no classes. -/
inductive PrimitiveType where
  | byte
  | char
  | double
  | float
  | int
  | long
  | short
  | boolean
deriving DecidableEq, Repr

/-- The letter for a primitive type. -/
def PrimitiveType.letter : PrimitiveType → Char
  | byte => 'B'
  | char => 'C'
  | double => 'D'
  | float => 'F'
  | int => 'I'
  | long => 'J'
  | short => 'S'
  | boolean => 'Z'

/-- The type of a field, a parameter or a result. -/
inductive TypeForm where
  | primitive (type : PrimitiveType)
  | reference (name : String)
  | array (element : TypeForm)
deriving DecidableEq, Repr

namespace TypeForm

/-- The text of a type. -/
def spell : TypeForm → List Char
  | primitive type => [type.letter]
  | reference name => 'L' :: (name.toList ++ [';'])
  | array element => '[' :: element.spell

/-- The class that a type refers to, if it does. -/
def name? : TypeForm → Option String
  | primitive _ => none
  | reference name => some name
  | array element => element.name?

/-- The name of a class may be any text that does not hold a semicolon. -/
def WellFormed (type : TypeForm) : Prop :=
  ∀ name ∈ type.name?, ';' ∉ name.toList

instance (type : TypeForm) : Decidable type.WellFormed :=
  inferInstanceAs (Decidable (∀ name ∈ type.name?, ';' ∉ name.toList))

/-- A type with its class under another name. -/
def map (f : String → String) : TypeForm → TypeForm
  | primitive type => primitive type
  | reference name => reference (f name)
  | array element => array (element.map f)

end TypeForm

/-- The descriptor of a field, or of a method with its parameters and its result, if it has one. -/
inductive DescriptorForm where
  | field (type : TypeForm)
  | method (parameters : List TypeForm) (result : Option TypeForm)
deriving DecidableEq, Repr

namespace DescriptorForm

/-- The text of a result. A method without one is marked by the letter `V`. -/
def spellResult : Option TypeForm → List Char
  | none => ['V']
  | some type => type.spell

/-- The text of a descriptor. -/
def spell : DescriptorForm → String
  | field type => String.ofList type.spell
  | method parameters result =>
    String.ofList ('(' :: (parameters.flatMap TypeForm.spell ++ ')' :: spellResult result))

/-- The types that a descriptor is made of, in order. -/
def types : DescriptorForm → List TypeForm
  | field type => [type]
  | method parameters result => parameters ++ result.toList

/-- A descriptor with its classes under other names. -/
def map (f : String → String) : DescriptorForm → DescriptorForm
  | field type => field (type.map f)
  | method parameters result => method (parameters.map (·.map f)) (result.map (·.map f))

/-- A descriptor of well-formed types. -/
def WellFormed (form : DescriptorForm) : Prop :=
  ∀ type ∈ form.types, type.WellFormed

instance (form : DescriptorForm) : Decidable form.WellFormed :=
  inferInstanceAs (Decidable (∀ type ∈ form.types, type.WellFormed))

end DescriptorForm

namespace Descriptor

/-- The name that a map gives to a class, the old one where the map does not know it. -/
def replaced (names : String → Option String) (name : String) : String :=
  (names name).getD name

variable {names first second : String → Option String}

theorem renamed_toList (name : String) :
    renamed names name.toList = (replaced names name).toList := by
  rw [renamed, replaced, String.ofList_toList]
  cases names name <;> rfl

/-! ### Forms -/

/-- Outside of a reference everything but an `L` is passed over. -/
theorem renameChars_cons {c : Char} (hc : c ≠ 'L') (rest : List Char) :
    renameChars names none (c :: rest) = c :: renameChars names none rest := by
  rw [renameChars, if_neg hc]

theorem letter_ne (type : PrimitiveType) : type.letter ≠ 'L' := by
  cases type <;> decide

/-- In front of any rest of a text, renaming finds the class of a type. -/
theorem renameChars_spell {type : TypeForm} (h : type.WellFormed) (rest : List Char) :
    renameChars names none (type.spell ++ rest) =
      (type.map (replaced names)).spell ++ renameChars names none rest := by
  induction type with
  | primitive type => exact renameChars_cons (letter_ne type) rest
  | reference name =>
      -- The reference is open up to the first semicolon, and that is the one behind the name.
      have hname : ';' ∉ name.toList := h name rfl
      rw [TypeForm.spell, TypeForm.map, TypeForm.spell, List.cons_append, List.append_assoc,
        List.singleton_append, renameChars, if_pos rfl, renameChars_closed hname, List.reverse_nil,
        List.nil_append, renamed_toList, List.cons_append, List.append_assoc,
        List.singleton_append]
  | array element ih =>
      rw [TypeForm.spell, TypeForm.map, TypeForm.spell, List.cons_append,
        renameChars_cons (by decide), ih h, List.cons_append]

theorem renameChars_flatMap_spell {types : List TypeForm} (h : ∀ type ∈ types, type.WellFormed)
    (rest : List Char) : renameChars names none (types.flatMap TypeForm.spell ++ rest) =
      (types.map (·.map (replaced names))).flatMap TypeForm.spell ++
        renameChars names none rest := by
  induction types with
  | nil => rfl
  | cons type types ih =>
      rw [List.forall_mem_cons] at h
      rw [List.flatMap_cons, List.append_assoc, renameChars_spell h.1, ih h.2, List.map_cons,
        List.flatMap_cons, List.append_assoc]

theorem renameChars_spellResult {result : Option TypeForm} (h : ∀ type ∈ result, type.WellFormed) :
    renameChars names none (DescriptorForm.spellResult result) =
      DescriptorForm.spellResult (result.map (·.map (replaced names))) := by
  cases result with
  | none => rfl
  | some type =>
      have hspell : renameChars names none (type.spell ++ []) =
          (type.map (replaced names)).spell ++ renameChars names none [] :=
        renameChars_spell (h type rfl) []
      rw [List.append_nil, renameChars, List.append_nil] at hspell
      exact hspell

/-- Renaming the text of a descriptor is renaming the classes in its form. -/
theorem rename_spell {form : DescriptorForm} (h : form.WellFormed) :
    rename names form.spell = (form.map (replaced names)).spell := by
  cases form with
  | field type =>
      -- Like the result of a method, the type is the end of the text.
      have hresult : ∀ type' ∈ some type, type'.WellFormed := by
        intro type' hmem
        exact h type' (Option.mem_toList.mpr hmem)
      rw [rename, DescriptorForm.spell, String.toList_ofList]
      exact congrArg String.ofList (renameChars_spellResult hresult)
  | method parameters result =>
      have hparameters : ∀ type ∈ parameters, type.WellFormed :=
        fun type hmem => h type (List.mem_append_left _ hmem)
      have hresult : ∀ type ∈ result, type.WellFormed :=
        fun type hmem => h type (List.mem_append_right _ (Option.mem_toList.mpr hmem))
      rw [rename, DescriptorForm.spell, String.toList_ofList, renameChars_cons (by decide),
        renameChars_flatMap_spell hparameters, renameChars_cons (by decide),
        renameChars_spellResult hresult]
      rfl

/-! ### Any text -/

/-- A map that knows no name changes nothing, inside of a reference and outside. -/
theorem renameChars_none (open? : Option (List Char)) (text : List Char) :
    renameChars (fun _ => none) open? text = (open?.getD []).reverse ++ text := by
  -- What is held back of an open reference comes out again, whether it closes or not.
  induction text generalizing open? with
  | nil =>
      cases open? with
      | none => rfl
      | some letters => rw [renameChars, Option.getD_some, List.append_nil]
  | cons c rest ih =>
      cases open? with
      | none =>
          by_cases hc : c = 'L'
          · rw [renameChars, if_pos hc, ih, hc]
            rfl
          · rw [renameChars_cons hc, ih]
            rfl
      | some letters =>
          by_cases hc : c = ';'
          · have hkept : renamed (fun _ => none) letters.reverse = letters.reverse := rfl
            rw [renameChars, if_pos hc, ih, hkept, hc]
            rfl
          · rw [renameChars, if_neg hc, ih, Option.getD_some, Option.getD_some, List.reverse_cons,
              List.append_assoc, List.singleton_append]

/-- Where no new name holds a semicolon, two maps compose on every name without one. -/
theorem composes_replaced (h : ∀ name between, first name = some between → ';' ∉ between.toList)
    {name : String} (hname : ';' ∉ name.toList) :
    Composes first second (fun name => some (replaced second (replaced first name)))
      name.toList := by
  have hbetween : ';' ∉ (replaced first name).toList := by
    rw [replaced]
    cases hfirst : first name with
    | none => exact hname
    | some between => exact h name between hfirst
  unfold Composes
  rw [renamed_toList, renamed_toList, renamed_toList]
  exact ⟨hbetween, rfl⟩

/-- Renaming follows the grammar and composes. A descriptor that is built by the grammar, from any
    types and with any class names that hold no semicolon, keeps its form and has every class
    replaced by its new name. Any text at all is left alone by a map that knows no name, and two
    maps after each other are one, if the first makes no name with a semicolon. -/
theorem rename_grammar (first second : String → Option String) :
    (∀ form : DescriptorForm, form.WellFormed →
      rename first form.spell = (form.map (replaced first)).spell) ∧
    (∀ text, rename (fun _ => none) text = text) ∧
    ((∀ name between, first name = some between → ';' ∉ between.toList) →
      ∀ text, rename second (rename first text) =
        rename (fun name => some (replaced second (replaced first name))) text) := by
  refine ⟨fun form hform => rename_spell hform, fun text => ?_, fun hfirst text => ?_⟩
  · rw [rename, renameChars_none]
    exact String.ofList_toList
  · exact rename_rename_of_composes fun name _ hname => composes_replaced hfirst hname

/-- A map that takes a class to one whose name starts with the letter of a reference. -/
def lidToLatch (name : String) : Option String :=
  if name = "Lid" then some "Latch" else none

/-- A map that knows the new name. -/
def latchToBolt (name : String) : Option String :=
  if name = "Latch" then some "(L[Bolt" else none

/-- A method of two parameters, one of them an array, with the class in both and in the result. -/
def lidMethod : DescriptorForm :=
  .method [.array (.array (.reference "Lid")), .primitive .long] (some (.reference "Lid"))

/-- Through both maps, in a descriptor and in a text that ends inside of a reference. -/
theorem rename_grammar_lidMethod :
    lidMethod.spell = "([[LLid;J)LLid;" ∧ lidMethod.WellFormed ∧
      rename lidToLatch "([[LLid;J)LLid;" = "([[LLatch;J)LLatch;" ∧
      rename latchToBolt (rename lidToLatch "([[LLid;J)LLid;") = "([[L(L[Bolt;J)L(L[Bolt;" ∧
      rename latchToBolt (rename lidToLatch "LLid;LLid") = "L(L[Bolt;LLid" := by
  have hform : lidMethod.WellFormed := by decide
  have hspell : lidMethod.spell = "([[LLid;J)LLid;" := by decide
  -- No new name of the first renaming could end a reference.
  have hplain : ∀ name between, lidToLatch name = some between → ';' ∉ between.toList := by
    intro name between hbetween
    rw [lidToLatch, Option.ite_none_right_eq_some, Option.some.injEq] at hbetween
    rw [← hbetween.2]
    decide
  rcases rename_grammar lidToLatch latchToBolt with ⟨hgrammar, -, hcomposes⟩
  have hrename := hgrammar lidMethod hform
  rw [hspell] at hrename
  refine ⟨hspell, hform, ?_, ?_, ?_⟩
  · rw [hrename]
    decide
  · rw [hcomposes hplain]
    decide
  · rw [hcomposes hplain]
    decide

end Descriptor

end AccessWidener
