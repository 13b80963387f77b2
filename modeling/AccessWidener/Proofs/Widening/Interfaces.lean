import AccessWidener.ClassFile.Blueprint
import AccessWidener.Proofs.ClassFile.Visibility
import AccessWidener.Proofs.Directive.Canonical
import AccessWidener.Proofs.Widening.ClassFile

/-!
# Methods of Interfaces

A method of an interface is public or private, and a loader refuses an interface in which one is
protected or final. The rules for methods were made for classes. One of them asks whether the class
is an interface: the rule that makes a formerly private method final once it is accessible. With it
an accessible method of an interface is public and not final, also if it is to be extendable.

The rule for extendable methods does not ask. A public method it leaves public, but a private one it
makes protected, which no interface may have. This happens if a private method is granted to be
extendable and not granted to be accessible, and in no other case (`fitsInterface_widenMethod_iff`),
and then the word of the method is protected and nothing else (`protected_widenMethod`).

## Main definitions

* `FitsInterface`: What is required of the word of an interface method.
* `ClassLayout.OpensPrivate`: A private method is asked to be extendable and not accessible.

## Theorems

* `fitsInterface_widenMethod_iff`: When the rule for methods keeps to what is required.
* `interface_methods_exact`: What widening makes of the methods of an interface.
* `interface_method_protected`: A file of directives that makes an interface method protected.
-/

namespace AccessWidener

open Flags

/-- What is required of the word of an interface method: it is public or private and not both, and
    neither protected nor final. -/
def FitsInterface (flags : UInt16) : Prop :=
  has flags publicBit ≠ has flags privateBit ∧
    has flags protectedBit = false ∧ has flags finalBit = false

instance (flags : UInt16) : Decidable (FitsInterface flags) :=
  inferInstanceAs (Decidable (_ ∧ _))

/-! ### The rule for methods -/

theorem IsPublic.fitsInterface {flags : UInt16} (h : IsPublic flags)
    (hfinal : has flags finalBit = false) : FitsInterface flags := by
  rcases h with ⟨hpublic, hprivate, hprotected⟩
  refine ⟨?_, hprotected, hfinal⟩
  rw [hpublic, hprivate]
  exact Bool.false_ne_true.symm

/-- A word that fits is public exactly if it is not private. -/
theorem FitsInterface.public_eq {flags : UInt16} (h : FitsInterface flags) :
    has flags publicBit = !has flags privateBit :=
  Bool.eq_not.mpr h.1

/-- Taking the final bit away does no harm. -/
theorem FitsInterface.removeFinal {flags : UInt16} (h : FitsInterface flags) :
    FitsInterface (removeFinal flags) := by
  unfold FitsInterface
  rw [has_removeFinal (by decide), has_removeFinal (by decide), has_removeFinal (by decide)]
  exact ⟨h.1, h.2.1, final_removeFinal flags⟩

/-- In an interface no method is made final. -/
theorem final_widenMethod_interface {flags : UInt16} (h : has flags finalBit = false)
    (name : String) (access : AccessSet) :
    has (widenMethod flags name access true) finalBit = false := by
  unfold widenMethod
  by_cases hext : access.extendable = true
  · simp only [hext, if_true]
    exact final_removeFinal _
  · by_cases hacc : access.accessible = true
    · simp only [hext, hacc, if_true]
      -- In an interface nothing becomes final.
      rw [if_neg Bool.false_ne_true, final_makePublic, h]
    · simp only [hext, hacc]
      rwa [if_neg Bool.false_ne_true, if_neg Bool.false_ne_true]

/-- A private method that is to be extendable and not accessible becomes protected. -/
theorem protected_widenMethod {flags : UInt16} (h : has flags publicBit = false)
    {access : AccessSet} (hext : access.extendable = true) (hacc : access.accessible = false)
    (name : String) (inInterface : Bool) :
    has (widenMethod flags name access inInterface) publicBit = false ∧
      has (widenMethod flags name access inInterface) privateBit = false ∧
      has (widenMethod flags name access inInterface) protectedBit = true := by
  unfold widenMethod
  simp only [hext, hacc, if_true]
  rw [if_neg Bool.false_ne_true, has_removeFinal (by decide), has_removeFinal (by decide),
    has_removeFinal (by decide)]
  -- A method that was not public is not public after it either, so it is the protected case.
  rcases makeProtected_cases flags with ⟨hpublic, -⟩ | ⟨-, hword⟩
  · rw [h] at hpublic
    cases hpublic
  · exact hword

/-- The rule for methods keeps to what an interface requires, but for private methods that are to be
    extendable and not accessible. -/
theorem fitsInterface_widenMethod_iff {flags : UInt16} (h : FitsInterface flags) (name : String)
    (access : AccessSet) :
    FitsInterface (widenMethod flags name access true) ↔
      ¬(has flags privateBit = true ∧ access.extendable = true ∧ access.accessible = false) := by
  have hfinal := final_widenMethod_interface h.2.2 name access
  by_cases hacc : access.accessible = true
  · -- Accessible methods are public, whatever they were.
    have hpublic := isPublic_widenMethod hacc flags name true
    refine iff_of_true (hpublic.fitsInterface hfinal) ?_
    rw [hacc]
    rintro ⟨-, -, hnot⟩
    cases hnot
  rw [Bool.not_eq_true] at hacc
  by_cases hext : access.extendable = true
  · by_cases hprivate : has flags privateBit = true
    · -- Such a method would have to be made public, and is made protected.
      have hpublic : has flags publicBit = false := by
        rw [h.public_eq, hprivate, Bool.not_true]
      have hword := protected_widenMethod hpublic hext hacc name true
      refine iff_of_false (fun hfits => ?_) (fun hnot => hnot ⟨hprivate, hext, hacc⟩)
      rw [hfits.2.1] at hword
      cases hword.2.2
    · -- What is not private is public, and stays so.
      have hpublic : has flags publicBit = true := by
        rw [h.public_eq, Bool.not_eq_true']
        exact Bool.not_eq_true _ ▸ hprivate
      have hword : widenMethod flags name access true = removeFinal flags := by
        unfold widenMethod
        simp only [hext, hacc, if_true]
        rw [if_neg Bool.false_ne_true, makeProtected_of_public hpublic]
      rw [hword]
      exact iff_of_true h.removeFinal (fun hall => hprivate hall.1)
  · -- Nothing is asked that the rule looks at.
    have hword : widenMethod flags name access true = flags := by
      unfold widenMethod
      simp only [hext, hacc]
      rw [if_neg Bool.false_ne_true, if_neg Bool.false_ne_true]
    rw [hword]
    exact iff_of_true h (fun hall => hext hall.2.1)

/-! ### Class files -/

namespace ClassLayout

/-- A declared method is private, and a set asks of it to be extendable and not to be accessible. -/
def OpensPrivate (set : DirectiveSet) (layout : ClassLayout) (method : MemberLayout) : Prop :=
  layout.member? .method method.signature = some method ∧
    has method.access.flags privateBit = true ∧
    (set.grantOf (.member .method ⟨layout.name, method.signature⟩)).access.extendable = true ∧
    (set.grantOf (.member .method ⟨layout.name, method.signature⟩)).access.accessible = false

instance (set : DirectiveSet) (layout : ClassLayout) (method : MemberLayout) :
    Decidable (layout.OpensPrivate set method) :=
  inferInstanceAs (Decidable (_ ∧ _))

variable {set : DirectiveSet} {layout : ClassLayout}

/-- A method of an interface is widened to what is required, or it is private and was asked to be
    extendable and not accessible. -/
theorem fitsInterface_widenDeclared_iff (hinterface : layout.isInterface = true)
    {method : MemberLayout} (h : FitsInterface method.access.flags) :
    FitsInterface (layout.widenDeclared set .method method).access.flags ↔
      ¬layout.OpensPrivate set method := by
  unfold widenDeclared OpensPrivate
  by_cases hfirst : layout.member? .method method.signature = some method
  · rw [if_pos hfirst, hinterface]
    simp only [widenMember, hfirst, true_and]
    exact fitsInterface_widenMethod_iff h _ _
  · -- Of a method behind another one of its signature nothing is asked.
    rw [if_neg hfirst]
    exact iff_of_true h (fun hall => hfirst hall.1)

theorem protected_widenDeclared {method : MemberLayout} (h : FitsInterface method.access.flags)
    (hopens : layout.OpensPrivate set method) :
    has (layout.widenDeclared set .method method).access.flags protectedBit = true := by
  rcases hopens with ⟨hfirst, hprivate, hext, hacc⟩
  have hpublic : has method.access.flags publicBit = false := by
    rw [h.public_eq, hprivate, Bool.not_true]
  unfold widenDeclared
  rw [if_pos hfirst]
  exact (protected_widenMethod hpublic hext hacc _ _).2.2

end ClassLayout

namespace Widener

/-- Widening an interface whose methods have the words that are required of them. Each method keeps
    its signature and has such a word again, unless it is private, the first one of its signature,
    and granted to be extendable without being granted to be accessible. Then, and only then, it
    becomes protected. -/
theorem interface_methods_exact (set : DirectiveSet) (hset : set.isEmpty = false) {bytes : Bytes}
    {layout : ClassLayout} (hparse : ClassLayout.parse bytes = .ok layout)
    (hinterface : layout.isInterface = true)
    (hfits : ∀ method ∈ layout.methods, FitsInterface method.access.flags) :
    ∃ widener patched widened, ofSet set = .ok widener ∧
      (∀ order, widener.patchClass bytes order = (patched, .ok (decide (patched ≠ bytes)))) ∧
      ClassLayout.parse patched = .ok widened ∧
      List.Forall₂ (fun before after : MemberLayout => after.signature = before.signature ∧
          (FitsInterface after.access.flags ↔ ¬layout.OpensPrivate set before) ∧
          (has after.access.flags protectedBit = true ↔ layout.OpensPrivate set before))
        layout.methods widened.methods := by
  rcases exists_ofSet hset with ⟨widener, hwidener⟩
  rcases patchClass_of_parse hwidener hparse with ⟨patched, hpatched, -, -, hlayout⟩
  refine ⟨widener, patched, layout.widened set, hwidener, hpatched, hlayout, ?_⟩
  change List.Forall₂ _ layout.methods (layout.methods.map (layout.widenDeclared set .method))
  rw [List.forall₂_map_right_iff, List.forall₂_same]
  intro method hmem
  have hfits' := hfits method hmem
  have hiff : FitsInterface (layout.widenDeclared set .method method).access.flags ↔
      ¬layout.OpensPrivate set method :=
    ClassLayout.fitsInterface_widenDeclared_iff hinterface hfits'
  refine ⟨ClassLayout.signature_widenDeclared set layout .method method, hiff, ?_, ?_⟩
  · intro hprotected
    -- A method that fits an interface is not protected.
    by_contra hnot
    rw [(hiff.mpr hnot).2.1] at hprotected
    cases hprotected
  · exact ClassLayout.protected_widenDeclared hfits'

/-- A set that asks for methods in all ways. -/
def lockSet : DirectiveSet :=
  .ofDirectives [⟨.member .method ⟨"Lock", ⟨"turn", "()V"⟩⟩, .accessible, false⟩,
    ⟨.member .method ⟨"Lock", ⟨"turn", "()V"⟩⟩, .extendable, true⟩,
    ⟨.member .method ⟨"Lock", ⟨"pick", "()V"⟩⟩, .extendable, false⟩,
    ⟨.member .method ⟨"Lock", ⟨"test", "()V"⟩⟩, .extendable, false⟩]

/-- An interface with two private methods, one of them static, and a public one. -/
def lockInterface : Bytes :=
  Blueprint.assemble
    { name := "Lock", flags := 0x600, superName := none
      methods := [⟨⟨"turn", "()V"⟩, 0x02⟩, ⟨⟨"pick", "()V"⟩, 0x0A⟩, ⟨⟨"test", "()V"⟩, 0x401⟩] }

/-- The layout of the interface with these flags. -/
def lockLayout (type turn pick test : UInt16) : ClassLayout :=
  ⟨"Lock", none, [], ⟨47, type⟩, [], [⟨⟨"turn", "()V"⟩, ⟨59, turn⟩⟩, ⟨⟨"pick", "()V"⟩, ⟨67, pick⟩⟩,
    ⟨⟨"test", "()V"⟩, ⟨75, test⟩⟩], []⟩

/-- The method that is granted both levels is fit for an interface again, and so is the public one.
    The private one that is to be extendable is protected. -/
theorem interface_methods_exact_lock :
    lockSet.isEmpty = false ∧
      ClassLayout.parse lockInterface = .ok (lockLayout 0x600 0x02 0x0A 0x401) ∧
      (lockLayout 0x600 0x02 0x0A 0x401).isInterface = true ∧
      (∀ method ∈ (lockLayout 0x600 0x02 0x0A 0x401).methods, FitsInterface method.access.flags) ∧
      ∃ widener patched, ofSet lockSet = .ok widener ∧
        widener.patchClass lockInterface = (patched, .ok (decide (patched ≠ lockInterface))) ∧
        ClassLayout.parse patched = .ok (lockLayout 0x601 0x01 0x0C 0x401) ∧
        FitsInterface 0x01 ∧ has 0x0C protectedBit = true ∧ FitsInterface 0x401 := by
  have hset : lockSet.isEmpty = false := by decide +kernel
  have hparse : ClassLayout.parse lockInterface = .ok (lockLayout 0x600 0x02 0x0A 0x401) := by
    decide +kernel
  have hinterface : (lockLayout 0x600 0x02 0x0A 0x401).isInterface = true := by decide
  have hfits : ∀ method ∈ (lockLayout 0x600 0x02 0x0A 0x401).methods,
      FitsInterface method.access.flags := by decide
  rcases interface_methods_exact lockSet hset hparse hinterface hfits with
    ⟨widener, patched, widened, hwidener, hpatched, hlayout, hmethods⟩
  have hwidened : (lockLayout 0x600 0x02 0x0A 0x401).widened lockSet =
      lockLayout 0x601 0x01 0x0C 0x401 := by
    decide +kernel
  have hlayout' := parse_patchClass hwidener hparse .sorted
  rw [hpatched .sorted, hwidened, hlayout] at hlayout'
  cases hlayout'
  -- The three methods that were granted something, in the order they are declared in.
  rcases hmethods with _ | ⟨⟨-, hturn, -⟩, _ | ⟨⟨-, -, hpick⟩, _ | ⟨⟨-, htest, -⟩, -⟩⟩⟩
  refine ⟨hset, hparse, hinterface, hfits, widener, patched, hwidener, hpatched .sorted, hlayout,
    hturn.mpr ?_, hpick.mpr ?_, htest.mpr ?_⟩
  · decide +kernel
  · decide +kernel
  · decide +kernel

/-- A file of directives that asks for one method to be extendable. -/
def chestDirectives : Bytes :=
  Utf8.encodeString "accessWidener v2 named\nextendable method Chest open ()V\n"

/-- The set that the file is read as. -/
def chestSet : DirectiveSet :=
  { DirectiveSet.ofDirectives
      [⟨.member .method ⟨"Chest", ⟨"open", "()V"⟩⟩, .extendable, false⟩] with
    ns := some .named }

/-- An interface with one method, which is private. -/
def chestInterface : Bytes :=
  Blueprint.assemble
    { name := "Chest", flags := 0x600, superName := none, methods := [⟨⟨"open", "()V"⟩, 0x02⟩] }

/-- The layout of the interface with these flags. -/
def chestLayout (type method : UInt16) : ClassLayout :=
  ⟨"Chest", none, [], ⟨34, type⟩, [], [⟨⟨"open", "()V"⟩, ⟨46, method⟩⟩], []⟩

/-- The method has the word that is required of it, and the file is accepted, and after widening the
    method is protected. -/
theorem interface_method_protected :
    DirectiveSet.ofFile chestDirectives = .ok chestSet ∧ chestSet.isEmpty = false ∧
      ClassLayout.parse chestInterface = .ok (chestLayout 0x600 0x02) ∧
      (chestLayout 0x600 0x02).isInterface = true ∧ FitsInterface 0x02 ∧
      ∃ widener, ofSet chestSet = .ok widener ∧
        ClassLayout.parse (widener.patchClass chestInterface).1 = .ok (chestLayout 0x601 0x04) ∧
        ¬FitsInterface 0x04 := by
  have hset : chestSet.isEmpty = false := by decide +kernel
  have hparse : ClassLayout.parse chestInterface = .ok (chestLayout 0x600 0x02) := by
    decide +kernel
  have hwidened : (chestLayout 0x600 0x02).widened chestSet = chestLayout 0x601 0x04 := by
    decide +kernel
  rcases exists_ofSet hset with ⟨widener, hwidener⟩
  have hlayout := parse_patchClass hwidener hparse .sorted
  rw [hwidened] at hlayout
  refine ⟨?_, hset, hparse, by decide, by decide, widener, hwidener, hlayout, by decide⟩
  decide +kernel

end Widener

end AccessWidener
