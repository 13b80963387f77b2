import AccessWidener.Proofs.ClassFile.Flags

/-!
# Visibility

Who can see a declaration, read off its flag word, and what it takes for a word to be changed
without harm to anybody: whoever saw the declaration still sees it, and no modifier is touched that
has nothing to do with being seen or being final.

Visibility is spelled by three bits, of which a legal word has at most one. That is worth an
invariant of its own, since a word with two of them can be narrowed without anything being taken
away from it: once the public bit of a public and private word is looked at before the private one,
the two steps of the rule for methods no longer commute. What widening writes is legal again
whenever what it found was.

## Main definitions

* `Visibility`, `Flags.visibility`: Who can see a declaration.
* `OneVisibility`: At most one visibility bit is set.
* `Loosens`: A word is changed without harm.

## Theorems

* `Loosens.refl`, `Loosens.trans`: Changing nothing, and changing twice.
* `Loosens.has_eq`, `Loosens.private_of_private`, `Loosens.isPublic`: What a harmless change tells
  of the word before and after it.
* `loosens_makePublic`, `loosens_makeProtected`, `loosens_removeFinal`,
  `loosens_makeFinalIfPrivate`: The building blocks of the rules do no harm.
-/

namespace AccessWidener

open Flags

/-- Who can see a declaration. -/
inductive Visibility where
  | ownClass
  | package
  | subclasses
  | everywhere
deriving DecidableEq, Repr

namespace Visibility

/-- The place of a visibility among all, the narrowest first. -/
def rank : Visibility → Nat
  | ownClass => 0
  | package => 1
  | subclasses => 2
  | everywhere => 3

instance : LE Visibility where
  le a b := a.rank ≤ b.rank

instance (a b : Visibility) : Decidable (a ≤ b) :=
  inferInstanceAs (Decidable (a.rank ≤ b.rank))

theorem le_refl (a : Visibility) : a ≤ a :=
  Nat.le_refl a.rank

theorem le_trans {a b c : Visibility} (hab : a ≤ b) (hbc : b ≤ c) : a ≤ c :=
  Nat.le_trans hab hbc

theorem le_everywhere (a : Visibility) : a ≤ everywhere := by
  cases a <;> decide

/-- Nothing is narrower than the class itself. -/
theorem eq_ownClass_of_le {a : Visibility} (h : a ≤ ownClass) : a = ownClass := by
  revert h
  cases a <;> decide

/-- Nothing is wider than everywhere. -/
theorem eq_everywhere_of_le {a : Visibility} (h : everywhere ≤ a) : a = everywhere := by
  revert h
  cases a <;> decide

end Visibility

/-- The visibility that a flag word spells. None of the three bits means the package. -/
def Flags.visibility (flags : UInt16) : Visibility :=
  if has flags publicBit then .everywhere
  else if has flags protectedBit then .subclasses
  else if has flags privateBit then .ownClass
  else .package

/-- At most one of the three bits that spell a visibility is set. -/
def OneVisibility (flags : UInt16) : Prop :=
  [publicBit, privateBit, protectedBit].countP (has flags) ≤ 1

instance (flags : UInt16) : Decidable (OneVisibility flags) :=
  inferInstanceAs (Decidable (_ ≤ 1))

/-- Whether a word has at most one visibility is told by the three bits. -/
theorem OneVisibility.congr {flags flags' : UInt16}
    (hpublic : has flags' publicBit = has flags publicBit)
    (hprivate : has flags' privateBit = has flags privateBit)
    (hprotected : has flags' protectedBit = has flags protectedBit) :
    OneVisibility flags' ↔ OneVisibility flags := by
  simp only [OneVisibility, List.countP_cons, List.countP_nil, hpublic, hprivate, hprotected]

theorem Flags.visibility_congr {flags flags' : UInt16}
    (hpublic : has flags' publicBit = has flags publicBit)
    (hprivate : has flags' privateBit = has flags privateBit)
    (hprotected : has flags' protectedBit = has flags protectedBit) :
    visibility flags' = visibility flags := by
  unfold visibility
  rw [hpublic, hprivate, hprotected]

/-- At most one bit of three is set if no two of them are. -/
theorem oneVisibility_iff (flags : UInt16) :
    OneVisibility flags ↔
      (has flags publicBit && has flags privateBit) = false ∧
        (has flags publicBit && has flags protectedBit) = false ∧
        (has flags privateBit && has flags protectedBit) = false := by
  simp only [OneVisibility, List.countP_cons, List.countP_nil]
  cases has flags publicBit <;> cases has flags privateBit <;> cases has flags protectedBit <;>
    decide

/-- A word with one visibility that is public is not private. -/
theorem OneVisibility.private_of_public {flags : UInt16} (h : OneVisibility flags)
    (hpublic : has flags publicBit = true) : has flags privateBit = false := by
  have hone := ((oneVisibility_iff flags).mp h).1
  rwa [hpublic, Bool.true_and] at hone

theorem IsPublic.oneVisibility {flags : UInt16} (h : IsPublic flags) : OneVisibility flags := by
  simp only [OneVisibility, List.countP_cons, List.countP_nil, h.1, h.2.1, h.2.2]
  decide

theorem IsPublic.visibility_eq {flags : UInt16} (h : IsPublic flags) :
    visibility flags = .everywhere := by
  rw [visibility, if_pos h.1]

/-- A word that spells the narrowest visibility is private. -/
theorem Flags.private_of_visibility {flags : UInt16} (h : visibility flags = .ownClass) :
    has flags privateBit = true := by
  unfold visibility at h
  split at h
  next => cases h
  next =>
    split at h
    next => cases h
    next =>
      split at h
      -- The third test of the rule is the private bit itself.
      next hprivate => exact hprivate
      next => cases h

/-- A word with one visibility that is private spells that one. -/
theorem OneVisibility.visibility_of_private {flags : UInt16} (h : OneVisibility flags)
    (hprivate : has flags privateBit = true) : visibility flags = .ownClass := by
  unfold visibility
  cases hpublic : has flags publicBit with
  | true =>
      rw [h.private_of_public hpublic] at hprivate
      cases hprivate
  | false =>
      -- The private bit excludes the protected one, so neither earlier test fires.
      have hone := ((oneVisibility_iff flags).mp h).2.2
      rw [hprivate, Bool.true_and] at hone
      rw [hprivate, hone, if_neg Bool.false_ne_true, if_neg Bool.false_ne_true, if_pos rfl]

/-- A word with one visibility that everybody sees is public and nothing else. -/
theorem OneVisibility.isPublic {flags : UInt16} (h : OneVisibility flags)
    (hall : visibility flags = .everywhere) : IsPublic flags := by
  have hpublic : has flags publicBit = true := by
    unfold visibility at hall
    split at hall
    next hpublic => exact hpublic
    next =>
      split at hall
      next => cases hall
      next => split at hall <;> cases hall
  -- With the public bit held, the other two visibility bits are excluded.
  have hone := ((oneVisibility_iff flags).mp h).2.1
  rw [hpublic, Bool.true_and] at hone
  exact ⟨hpublic, h.private_of_public hpublic, hone⟩

/-- The bits that widening may change. -/
def wideningMask : UInt16 := visibilityMask ||| finalBit

/-- A word is changed without harm: a legal word becomes a legal word that is at least as visible,
    and no bit changes but those of the visibility and the final bit. -/
structure Loosens (before after : UInt16) : Prop where
  oneVisibility : OneVisibility after
  visibility_le : visibility before ≤ visibility after
  others : after &&& ~~~wideningMask = before &&& ~~~wideningMask

theorem Loosens.refl {flags : UInt16} (h : OneVisibility flags) : Loosens flags flags :=
  ⟨h, Visibility.le_refl _, rfl⟩

theorem Loosens.trans {a b c : UInt16} (hab : Loosens a b) (hbc : Loosens b c) : Loosens a c :=
  ⟨hbc.oneVisibility, Visibility.le_trans hab.visibility_le hbc.visibility_le,
    hbc.others.trans hab.others⟩

/-- A modifier that widening has nothing to do with is kept. -/
theorem Loosens.has_eq {before after bit : UInt16} (h : Loosens before after)
    (hbit : ~~~wideningMask &&& bit = bit) : has after bit = has before bit := by
  rw [← has_mask_of_kept hbit, h.others, has_mask_of_kept hbit]

/-- What is private after a harmless change was private before it. -/
theorem Loosens.private_of_private {before after : UInt16} (h : Loosens before after)
    (hafter : has after privateBit = true) : has before privateBit = true := by
  have hle := h.visibility_le
  rw [h.oneVisibility.visibility_of_private hafter] at hle
  exact private_of_visibility (Visibility.eq_ownClass_of_le hle)

/-- What is public before a harmless change is public after it. -/
theorem Loosens.isPublic {before after : UInt16} (h : Loosens before after)
    (hbefore : IsPublic before) : IsPublic after := by
  have hle := h.visibility_le
  rw [hbefore.visibility_eq] at hle
  exact h.oneVisibility.isPublic (Visibility.eq_everywhere_of_le hle)

/-! ### Building blocks -/

/-- Masking a word and adding bits leaves all other bits as they were. -/
theorem mask_or_others {mask bits kept : UInt16} (hmask : mask &&& kept = kept)
    (hbits : bits &&& kept = 0) (flags : UInt16) :
    (flags &&& mask ||| bits) &&& kept = flags &&& kept := by
  rw [or_and, UInt16.and_assoc, hmask, hbits, UInt16.or_zero]

theorem loosens_makePublic (flags : UInt16) : Loosens flags (makePublic flags) where
  oneVisibility := (isPublic_makePublic flags).oneVisibility
  visibility_le := by
    rw [(isPublic_makePublic flags).visibility_eq]
    exact Visibility.le_everywhere _
  others := mask_or_others (by decide) (by decide) flags

theorem loosens_removeFinal {flags : UInt16} (h : OneVisibility flags) :
    Loosens flags (removeFinal flags) := by
  have hpublic : has (removeFinal flags) publicBit = has flags publicBit :=
    has_removeFinal (by decide) flags
  have hprivate : has (removeFinal flags) privateBit = has flags privateBit :=
    has_removeFinal (by decide) flags
  have hprotected : has (removeFinal flags) protectedBit = has flags protectedBit :=
    has_removeFinal (by decide) flags
  -- The three visibility bits are untouched, and `final` lies within the widening mask.
  refine ⟨(OneVisibility.congr hpublic hprivate hprotected).mpr h, ?_, ?_⟩
  · rw [visibility_congr hpublic hprivate hprotected]
    exact Visibility.le_refl _
  · rw [removeFinal, UInt16.and_assoc]
    rfl

/-- Adding the final bit changes nothing about who sees a declaration. -/
theorem loosens_makeFinalIfPrivate {flags : UInt16} (h : OneVisibility flags) (name : String) :
    Loosens flags (makeFinalIfPrivate flags name) := by
  have hbit : ∀ bit, has finalBit bit = false → has (flags ||| finalBit) bit = has flags bit := by
    intro bit hfree
    rw [has_or, hfree, Bool.or_false]
  have hpublic := hbit publicBit (by decide)
  have hprivate := hbit privateBit (by decide)
  have hprotected := hbit protectedBit (by decide)
  unfold makeFinalIfPrivate
  split
  next =>
    refine ⟨(OneVisibility.congr hpublic hprivate hprotected).mpr h, ?_, ?_⟩
    · rw [visibility_congr hpublic hprivate hprotected]
      exact Visibility.le_refl _
    · -- Adding `final` is a change within the mask.
      have hfree : finalBit &&& ~~~wideningMask = 0 := by decide
      rw [or_and, hfree, UInt16.or_zero]
  next => exact Loosens.refl h

/-- What is made protected is public as before, or protected and nothing else. -/
theorem makeProtected_cases (flags : UInt16) :
    (has flags publicBit = true ∧ makeProtected flags = flags) ∨
      (has flags publicBit = false ∧ has (makeProtected flags) publicBit = false ∧
        has (makeProtected flags) privateBit = false ∧
        has (makeProtected flags) protectedBit = true) := by
  by_cases hpublic : has flags publicBit = true
  · exact Or.inl ⟨hpublic, makeProtected_of_public hpublic⟩
  · -- Not public: the other two bits are cleared before the protected one is set.
    have hadded : has protectedBit publicBit = false ∧ has protectedBit privateBit = false ∧
        has protectedBit protectedBit = true := by decide
    rw [makeProtected, if_neg hpublic, has_or, has_or, has_or, hadded.1, hadded.2.1, hadded.2.2,
      has_mask_of_cleared (by decide), has_mask_of_cleared (by decide), Bool.or_true]
    exact Or.inr ⟨Bool.not_eq_true _ ▸ hpublic, rfl, rfl, rfl⟩

theorem loosens_makeProtected {flags : UInt16} (h : OneVisibility flags) :
    Loosens flags (makeProtected flags) := by
  rcases makeProtected_cases flags with ⟨hpublic, hsame⟩ | ⟨hnot, hpublic, hprivate, hprotected⟩
  · rw [hsame]
    exact Loosens.refl h
  · refine ⟨?_, ?_, ?_⟩
    · simp only [OneVisibility, List.countP_cons, List.countP_nil, hpublic, hprivate, hprotected]
      decide
    · -- A word that is not public is at most protected.
      unfold visibility
      rw [hnot, hpublic, hprotected]
      simp only [Bool.false_eq_true, if_false, if_true]
      split
      next => decide
      next => split <;> decide
    · rw [makeProtected, if_neg (by rw [hnot]; exact Bool.false_ne_true)]
      exact mask_or_others (by decide) (by decide) flags

/-- What is made protected, and was not public and private at once, is not private. -/
theorem private_makeProtected {flags : UInt16} (h : OneVisibility flags) :
    has (makeProtected flags) privateBit = false := by
  rcases makeProtected_cases flags with ⟨hpublic, hsame⟩ | ⟨-, -, hprivate, -⟩
  · rw [hsame]
    exact h.private_of_public hpublic
  · exact hprivate

/-- Once a word is to be public, it does not matter that it was made protected before. -/
theorem makePublic_makeProtected (flags : UInt16) :
    makePublic (makeProtected flags) = makePublic flags := by
  unfold makeProtected
  split
  next => rfl
  next =>
    have hnone : protectedBit &&& ~~~visibilityMask = 0 := by decide
    rw [makePublic, makePublic, or_and, UInt16.and_assoc, UInt16.and_self, hnone, UInt16.or_zero]

/-- Once a word is not to be final, it does not matter whether it was made final before. -/
theorem removeFinal_makeFinalIfPrivate (flags : UInt16) (name : String) :
    removeFinal (makeFinalIfPrivate flags name) = removeFinal flags := by
  unfold makeFinalIfPrivate
  split
  next =>
    have hnone : finalBit &&& ~~~finalBit = 0 := by decide
    rw [removeFinal, removeFinal, or_and, hnone, UInt16.or_zero]
  next => rfl

/-- Making a word public leaves the final bit as it is. -/
theorem final_makePublic (flags : UInt16) :
    has (makePublic flags) finalBit = has flags finalBit := by
  have hadded : has publicBit finalBit = false := by decide
  rw [makePublic, has_or, has_mask_of_kept (by decide), hadded, Bool.or_false]

end AccessWidener
