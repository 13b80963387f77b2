import AccessWidener.Pipeline.Widener

/-!
# What the Rules Do to Flags

The rules for flag words, bit by bit. A rule is made of masks that are put over a word and of bits
that are added to it, so what it does to a modifier can be computed from the masks alone: a bit that
a mask covers is kept, and one that it leaves out is gone. Each rule is described once by what it
does to the bits it is about and once by leaving the others alone.

## Main definitions

* `IsPublic`, `IsOpen`: What a flag word says about a declaration.

## Theorems

* `has_or`, `has_mask_of_kept`, `has_mask_of_cleared`: Adding bits, and masking them.
* `isPublic_makePublic`, `isOpen_removeFinal_makeProtected`: What the building blocks achieve.
* `isPublic_widenClass`, `isPublic_widenMethod`, `isPublic_widenField`: Widened words are public.
* `isOpen_widenMethod`, `final_widenClass`, `final_widenField`: Widened words are not final.
* `widenClass_widenClass`, `widenMember_widenMember`: Widened words are fixed points of the rules.
-/

namespace AccessWidener

namespace Flags

/-- Masking bits that were put together is masking each of them. -/
theorem or_and (a b mask : UInt16) : (a ||| b) &&& mask = (a &&& mask) ||| (b &&& mask) := by
  refine UInt16.toBitVec_inj.mp ?_
  simp only [UInt16.toBitVec_and, UInt16.toBitVec_or]
  exact BitVec.and_or_distrib_right

theorem has_or (a b bit : UInt16) : has (a ||| b) bit = (has a bit || has b bit) := by
  rw [has, has, has, or_and, Bool.eq_iff_iff]
  simp only [ne_eq, UInt16.or_eq_zero_iff, decide_eq_true_eq, Bool.or_eq_true,
    Decidable.not_and_iff_not_or_not]

/-- A bit that a mask covers is kept. -/
theorem has_mask_of_kept {mask bit : UInt16} (h : mask &&& bit = bit) (flags : UInt16) :
    has (flags &&& mask) bit = has flags bit := by
  rw [has, UInt16.and_assoc, h, has]

/-- A bit that a mask leaves out is gone. -/
theorem has_mask_of_cleared {mask bit : UInt16} (h : mask &&& bit = 0) (flags : UInt16) :
    has (flags &&& mask) bit = false := by
  rw [has, UInt16.and_assoc, h, UInt16.and_zero]
  rfl

/-! ### Public -/

theorem public_makePublic (flags : UInt16) : has (makePublic flags) publicBit = true := by
  rw [makePublic, has_or, Bool.or_eq_true]
  exact Or.inr rfl

theorem private_makePublic (flags : UInt16) : has (makePublic flags) privateBit = false := by
  rw [makePublic, has_or, has_mask_of_cleared (by decide), Bool.false_or]
  rfl

theorem protected_makePublic (flags : UInt16) : has (makePublic flags) protectedBit = false := by
  rw [makePublic, has_or, has_mask_of_cleared (by decide), Bool.false_or]
  rfl

/-! ### Protected -/

theorem makeProtected_of_public {flags : UInt16} (h : has flags publicBit = true) :
    makeProtected flags = flags := by
  rw [makeProtected, if_pos h]

/-- What is made protected can be seen in subclasses. -/
theorem public_or_protected_makeProtected (flags : UInt16) :
    has (makeProtected flags) publicBit = true ∨ has (makeProtected flags) protectedBit = true := by
  unfold makeProtected
  split
  next hpublic => exact Or.inl hpublic
  next =>
    rw [has_or, has_or]
    exact Or.inr (Bool.or_eq_true_iff.mpr (Or.inr rfl))

/-! ### Final -/

theorem final_removeFinal (flags : UInt16) : has (removeFinal flags) finalBit = false :=
  has_mask_of_cleared (by decide) flags

theorem has_removeFinal {bit : UInt16} (h : ~~~finalBit &&& bit = bit) (flags : UInt16) :
    has (removeFinal flags) bit = has flags bit :=
  has_mask_of_kept h flags

/-! ### Applied again -/

/-- Masking a word and adding bits that the mask leaves out is done once and for all. -/
theorem mask_or_again {mask bits : UInt16} (h : bits &&& mask = 0) (flags : UInt16) :
    ((flags &&& mask ||| bits) &&& mask) ||| bits = flags &&& mask ||| bits := by
  rw [or_and, UInt16.and_assoc, UInt16.and_self, h, UInt16.or_zero]

/-- A mask that covers the added bits may be put over a word before or after the bits are added. -/
theorem mask_or_mask {mask kept bits : UInt16} (h : bits &&& kept = bits) (flags : UInt16) :
    (flags &&& kept) &&& mask ||| bits = (flags &&& mask ||| bits) &&& kept := by
  rw [or_and, h, UInt16.and_assoc, UInt16.and_assoc, UInt16.and_comm kept mask]

theorem makePublic_makePublic (flags : UInt16) : makePublic (makePublic flags) = makePublic flags :=
  mask_or_again (by decide) flags

theorem removeFinal_removeFinal (flags : UInt16) :
    removeFinal (removeFinal flags) = removeFinal flags := by
  rw [removeFinal, removeFinal, UInt16.and_assoc, UInt16.and_self]

theorem makeProtected_makeProtected (flags : UInt16) :
    makeProtected (makeProtected flags) = makeProtected flags := by
  by_cases hpublic : has flags publicBit = true
  · rw [makeProtected_of_public hpublic, makeProtected_of_public hpublic]
  · -- Protected is not public, so the word is masked again and gets the same bit again.
    have hword : makeProtected flags = flags &&& ~~~visibilityMask ||| protectedBit := by
      rw [makeProtected, if_neg hpublic]
    have hnot : has (flags &&& ~~~visibilityMask ||| protectedBit) publicBit = false := by
      rw [has_or, has_mask_of_cleared (by decide), Bool.false_or]
      rfl
    rw [hword, makeProtected, hnot, if_neg Bool.false_ne_true]
    exact mask_or_again (by decide) flags

theorem makePublic_removeFinal (flags : UInt16) :
    makePublic (removeFinal flags) = removeFinal (makePublic flags) :=
  mask_or_mask (by decide) flags

theorem makeProtected_removeFinal (flags : UInt16) :
    makeProtected (removeFinal flags) = removeFinal (makeProtected flags) := by
  unfold makeProtected
  rw [has_removeFinal (by decide)]
  by_cases hpublic : has flags publicBit = true
  · rw [if_pos hpublic, if_pos hpublic]
  · rw [if_neg hpublic, if_neg hpublic]
    exact mask_or_mask (by decide) flags

theorem makeFinalIfPrivate_of_not_private {flags : UInt16} (h : has flags privateBit = false)
    (name : String) : makeFinalIfPrivate flags name = flags := by
  rw [makeFinalIfPrivate, h, Bool.false_and, Bool.false_and, if_neg Bool.false_ne_true]

end Flags

open Flags

/-- A word that spells public visibility and no other. -/
def IsPublic (flags : UInt16) : Prop :=
  has flags publicBit = true ∧ has flags privateBit = false ∧ has flags protectedBit = false

/-- A word that lets subclasses see the declaration and override it. -/
def IsOpen (flags : UInt16) : Prop :=
  (has flags publicBit = true ∨ has flags protectedBit = true) ∧ has flags finalBit = false

theorem isPublic_makePublic (flags : UInt16) : IsPublic (makePublic flags) :=
  ⟨public_makePublic flags, private_makePublic flags, protected_makePublic flags⟩

theorem isPublic_removeFinal {flags : UInt16} (h : IsPublic flags) :
    IsPublic (removeFinal flags) := by
  refine ⟨?_, ?_, ?_⟩
  · rw [has_removeFinal (by decide), h.1]
  · rw [has_removeFinal (by decide), h.2.1]
  · rw [has_removeFinal (by decide), h.2.2]

theorem isOpen_removeFinal_makeProtected (flags : UInt16) :
    IsOpen (removeFinal (makeProtected flags)) := by
  refine ⟨?_, final_removeFinal _⟩
  rw [has_removeFinal (by decide), has_removeFinal (by decide)]
  exact public_or_protected_makeProtected flags

/-! ### Classes -/

/-- A class of which anything is asked becomes public. -/
theorem isPublic_widenClass {access : AccessSet} (h : access.isEmpty = false) (flags : UInt16) :
    IsPublic (widenClass flags access) := by
  rw [widenClass, h, if_neg Bool.false_ne_true]
  split
  · exact isPublic_removeFinal (isPublic_makePublic flags)
  · exact isPublic_makePublic flags

/-- A class that is to be extendable is not final. -/
theorem final_widenClass {access : AccessSet} (h : access.extendable = true) (flags : UInt16) :
    has (widenClass flags access) finalBit = false := by
  have hempty : access.isEmpty = false := by
    cases hisEmpty : access.isEmpty with
    | false => rfl
    | true =>
        rw [of_decide_eq_true hisEmpty] at h
        cases h
  rw [widenClass, hempty, if_neg Bool.false_ne_true, if_pos h]
  exact final_removeFinal _

/-! ### Members -/

/-- An accessible method becomes public, also if it is to be extendable. -/
theorem isPublic_widenMethod {access : AccessSet} (h : access.accessible = true) (flags : UInt16)
    (name : String) (inInterface : Bool) :
    IsPublic (widenMethod flags name access inInterface) := by
  unfold widenMethod
  simp only [h, if_true]
  split
  · -- What is public already is not made protected.
    rw [makeProtected_of_public (public_makePublic _)]
    exact isPublic_removeFinal (isPublic_makePublic _)
  · exact isPublic_makePublic _

/-- An extendable method can be seen in subclasses and is not final. -/
theorem isOpen_widenMethod {access : AccessSet} (h : access.extendable = true) (flags : UInt16)
    (name : String) (inInterface : Bool) :
    IsOpen (widenMethod flags name access inInterface) := by
  unfold widenMethod
  simp only [h, if_true]
  exact isOpen_removeFinal_makeProtected _

/-- An accessible field becomes public, also if it is to be mutable. -/
theorem isPublic_widenField {access : AccessSet} (h : access.accessible = true) (flags : UInt16) :
    IsPublic (widenField flags access) := by
  unfold widenField
  simp only [h, if_true]
  split
  · exact isPublic_removeFinal (isPublic_makePublic flags)
  · exact isPublic_makePublic flags

/-- A mutable field is not final. -/
theorem final_widenField {access : AccessSet} (h : access.mutable = true) (flags : UInt16) :
    has (widenField flags access) finalBit = false := by
  unfold widenField
  simp only [h, if_true]
  exact final_removeFinal _

/-! ### Widening what was widened -/

theorem widenClass_widenClass (flags : UInt16) (access : AccessSet) :
    widenClass (widenClass flags access) access = widenClass flags access := by
  unfold widenClass
  by_cases hempty : access.isEmpty = true
  · simp only [if_pos hempty]
  · simp only [if_neg hempty]
    by_cases hext : access.extendable = true
    · simp only [if_pos hext]
      -- Taking `final` away commutes with publishing, so the two repeated steps meet and collapse.
      rw [makePublic_removeFinal, makePublic_makePublic, removeFinal_removeFinal]
    · simp only [if_neg hext]
      exact makePublic_makePublic flags

/-- The rule for methods asks whether the word is private, and makes it otherwise if it is to be
    accessible. Hence no method is made final by the second widening that was not by the first. -/
theorem widenMethod_widenMethod (flags : UInt16) (name : String) (access : AccessSet)
    (inInterface : Bool) :
    widenMethod (widenMethod flags name access inInterface) name access inInterface =
      widenMethod flags name access inInterface := by
  by_cases hacc : access.accessible = true
  · have hpublic := isPublic_widenMethod hacc flags name inInterface
    -- After one pass the method is not private, so the guard that makes a private method final
    -- stays out of the second pass.
    have hguarded : ∀ word, has word privateBit = false →
        (if inInterface then word else makeFinalIfPrivate word name) = word := by
      intro word hword
      rw [makeFinalIfPrivate_of_not_private hword, ite_self]
    generalize hguard : (if inInterface then flags else makeFinalIfPrivate flags name) = guarded
    by_cases hext : access.extendable = true
    · -- A public method is not made protected, which leaves only the `final` bit to remove.
      have hword : widenMethod flags name access inInterface = removeFinal (makePublic guarded) := by
        unfold widenMethod
        simp only [if_pos hacc, if_pos hext, hguard]
        rw [makeProtected_of_public (public_makePublic guarded)]
      rw [hword] at hpublic ⊢
      unfold widenMethod
      simp only [if_pos hacc, if_pos hext, hguarded _ hpublic.2.1]
      rw [makePublic_removeFinal, makePublic_makePublic, makeProtected_of_public hpublic.1,
        removeFinal_removeFinal]
    · have hword : widenMethod flags name access inInterface = makePublic guarded := by
        unfold widenMethod
        simp only [if_pos hacc, if_neg hext, hguard]
      rw [hword] at hpublic ⊢
      unfold widenMethod
      simp only [if_pos hacc, if_neg hext, hguarded _ hpublic.2.1]
      exact makePublic_makePublic guarded
  · -- Without `accessible` there is no guard: what is left is protected and not final.
    unfold widenMethod
    simp only [if_neg hacc]
    by_cases hext : access.extendable = true
    · simp only [if_pos hext]
      rw [makeProtected_removeFinal, makeProtected_makeProtected, removeFinal_removeFinal]
    · simp only [if_neg hext]

theorem widenField_widenField (flags : UInt16) (access : AccessSet) :
    widenField (widenField flags access) access = widenField flags access := by
  unfold widenField
  by_cases hacc : access.accessible = true
  · simp only [if_pos hacc]
    by_cases hmut : access.mutable = true
    · simp only [if_pos hmut]
      -- The two steps commute, and each is idempotent.
      rw [makePublic_removeFinal, makePublic_makePublic, removeFinal_removeFinal]
    · simp only [if_neg hmut]
      exact makePublic_makePublic flags
  · simp only [if_neg hacc]
    by_cases hmut : access.mutable = true
    · simp only [if_pos hmut]
      exact removeFinal_removeFinal flags
    · simp only [if_neg hmut]

/-- Whatever levels are asked for, a widened word is a fixed point of its rule. -/
theorem widenMember_widenMember (kind : MemberKind) (flags : UInt16) (name : String)
    (access : AccessSet) (inInterface : Bool) :
    widenMember kind (widenMember kind flags name access inInterface) name access inInterface =
      widenMember kind flags name access inInterface := by
  cases kind with
  | method => exact widenMethod_widenMethod flags name access inInterface
  | field => exact widenField_widenField flags access

/-- Widening a class does not turn it into an interface, nor an interface into a class. -/
theorem interface_widenClass (flags : UInt16) (access : AccessSet) :
    has (widenClass flags access) interfaceBit = has flags interfaceBit := by
  have hpublic : has (makePublic flags) interfaceBit = has flags interfaceBit := by
    -- The interface bit is neither in the cleared bits nor in the added one.
    have hadded : has publicBit interfaceBit = false := by decide
    rw [makePublic, has_or, has_mask_of_kept (by decide), hadded, Bool.or_false]
  unfold widenClass
  split
  next => rfl
  next =>
    split
    next => rw [has_removeFinal (by decide), hpublic]
    next => exact hpublic

end AccessWidener
