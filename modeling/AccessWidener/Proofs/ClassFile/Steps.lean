import AccessWidener.Proofs.ClassFile.Visibility
import AccessWidener.Proofs.Directive.Grants

/-!
# Rules as Steps

Every rule for flag words is two steps in turn, each of which is taken only if a level asks for it:
first a declaration is made visible, then it is opened for others to extend, override or assign. All
that is to be known about a rule follows from what its two steps do alone.

Steps that can be repeated and exchanged compose (`inTurn_inTurn`): taking both in turn, and then
both in turn again, is taking each of them once if it was asked for either time. For classes and
fields this holds of every word. For methods it holds of words with one visibility. The first step
makes a private method final, the second one takes the final bit away and the private bit with it,
so a word that is public besides being private would come out final or not depending on which step
sees it first.

## Main definitions

* `asked`, `inTurn`: A step that is taken if it is asked for, and two steps in turn.
* `Exchangeable`: Steps that can be repeated and exchanged.
* `publishMethod`, `openMethod`: The steps of the rule for methods.

## Theorems

* `inTurn_inTurn`: Exchangeable steps compose.
* `widenClass_eq`, `widenMethod_eq`, `widenField_eq`: The rules are steps in turn.
* `widenClass_union`, `widenMember_union`: Widening for some levels and then for others is widening
  for all of them.
* `loosens_widenClass`, `loosens_widenMember`: The rules do no harm.
* `final_of_widenClass`, `final_of_widenField`, `final_of_widenMethod`: Where a final bit comes
  from.
-/

namespace AccessWidener

open Flags

/-- A step that is taken if it is asked for. -/
def asked (step : UInt16 → UInt16) (asks : Bool) (flags : UInt16) : UInt16 :=
  if asks then step flags else flags

/-- Two steps in turn, each of them taken if it is asked for. -/
def inTurn (first second : UInt16 → UInt16) (asksFirst asksSecond : Bool) (flags : UInt16) :
    UInt16 :=
  asked second asksSecond (asked first asksFirst flags)

/-- Whatever a step does to a word, and holds of a word that is left alone, is done to a word by a
    step that may not be taken. -/
theorem asked_elim {step : UInt16 → UInt16} {flags : UInt16} (P : UInt16 → Prop)
    (hstep : P (step flags)) (hsame : P flags) (asks : Bool) : P (asked step asks flags) := by
  cases asks with
  | false => exact hsame
  | true => exact hstep

/-! ### Steps that compose -/

/-- Two steps that keep a property of words, and that can be repeated and exchanged on words that
    have it. -/
structure Exchangeable (P : UInt16 → Prop) (first second : UInt16 → UInt16) : Prop where
  first_keeps : ∀ flags, P flags → P (first flags)
  second_keeps : ∀ flags, P flags → P (second flags)
  first_again : ∀ flags, P flags → first (first flags) = first flags
  second_again : ∀ flags, P flags → second (second flags) = second flags
  exchange : ∀ flags, P flags → first (second flags) = second (first flags)

/-- Asking for a step a second time changes nothing. -/
theorem asked_asked {step : UInt16 → UInt16} {flags : UInt16}
    (h : step (step flags) = step flags) (a b : Bool) :
    asked step b (asked step a flags) = asked step (a || b) flags := by
  cases a with
  | false => rfl
  | true =>
      cases b with
      | false => rfl
      | true => exact h

theorem asked_exchange {first second : UInt16 → UInt16} {flags : UInt16}
    (h : first (second flags) = second (first flags)) (a b : Bool) :
    asked first a (asked second b flags) = asked second b (asked first a flags) := by
  cases a with
  | false => rfl
  | true =>
      cases b with
      | false => rfl
      | true => exact h

/-- Exchangeable steps taken in turn, and then in turn again, are each taken if they were asked for
    either time. -/
theorem inTurn_inTurn {P : UInt16 → Prop} {first second : UInt16 → UInt16}
    (hsteps : Exchangeable P first second) {flags : UInt16} (h : P flags) (a b a' b' : Bool) :
    inTurn first second a' b' (inTurn first second a b flags) =
      inTurn first second (a || a') (b || b') flags := by
  have hpassed : P (asked first a flags) := asked_elim P (hsteps.first_keeps flags h) h a
  have hboth : P (asked first (a || a') flags) := asked_elim P (hsteps.first_keeps flags h) h _
  -- The second step of the first turn is moved behind the first step of the second turn.
  unfold inTurn
  calc asked second b' (asked first a' (asked second b (asked first a flags)))
      = asked second b' (asked second b (asked first a' (asked first a flags))) := by
        rw [asked_exchange (hsteps.exchange _ hpassed)]
    _ = asked second b' (asked second b (asked first (a || a') flags)) := by
        rw [asked_asked (hsteps.first_again flags h)]
    _ = asked second (b || b') (asked first (a || a') flags) :=
        asked_asked (hsteps.second_again _ hboth) b b'

/-! ### The rules -/

/-- A class becomes public if anything is asked of it, and then not final. -/
theorem widenClass_eq (flags : UInt16) (access : AccessSet) :
    widenClass flags access =
      inTurn makePublic removeFinal (!access.isEmpty) access.extendable flags := by
  unfold widenClass inTurn
  by_cases hempty : access.isEmpty = true
  · -- Nothing is asked, so the second step is not asked for either.
    have hext : access.extendable = false := (AccessSet.isEmpty_iff access).mp hempty .extendable
    rw [if_pos hempty, hempty, hext]
    rfl
  · rw [if_neg hempty, eq_false_of_ne_true hempty]
    rfl

/-- The first step of the rule for methods: public, and final if it was private. -/
def publishMethod (name : String) (inInterface : Bool) (flags : UInt16) : UInt16 :=
  makePublic (if inInterface then flags else makeFinalIfPrivate flags name)

/-- The second step of the rule for methods: at least protected, and not final. -/
def openMethod (flags : UInt16) : UInt16 :=
  removeFinal (makeProtected flags)

theorem widenMethod_eq (flags : UInt16) (name : String) (access : AccessSet) (inInterface : Bool) :
    widenMethod flags name access inInterface =
      inTurn (publishMethod name inInterface) openMethod access.accessible access.extendable
        flags := rfl

theorem widenField_eq (flags : UInt16) (access : AccessSet) :
    widenField flags access =
      inTurn makePublic removeFinal access.accessible access.mutable flags := rfl

/-- Making public and taking the final bit away can be exchanged on any word. -/
theorem exchangeable_makePublic : Exchangeable (fun _ => True) makePublic removeFinal where
  first_keeps _ _ := trivial
  second_keeps _ _ := trivial
  first_again flags _ := makePublic_makePublic flags
  second_again flags _ := removeFinal_removeFinal flags
  exchange flags _ := makePublic_removeFinal flags

theorem isPublic_publishMethod (name : String) (inInterface : Bool) (flags : UInt16) :
    IsPublic (publishMethod name inInterface flags) :=
  isPublic_makePublic _

/-- A method that is not private is made public and nothing else. -/
theorem publishMethod_of_not_private {flags : UInt16} (h : has flags privateBit = false)
    (name : String) (inInterface : Bool) :
    publishMethod name inInterface flags = makePublic flags := by
  rw [publishMethod, makeFinalIfPrivate_of_not_private h, ite_self]

/-- A method that is opened does not keep the final bit that it got when it was published. -/
theorem removeFinal_publishMethod (name : String) (inInterface : Bool) (flags : UInt16) :
    removeFinal (publishMethod name inInterface flags) = removeFinal (makePublic flags) := by
  rw [publishMethod, ← makePublic_removeFinal, ← makePublic_removeFinal]
  cases inInterface with
  | false => rw [if_neg Bool.false_ne_true, removeFinal_makeFinalIfPrivate]
  | true => rw [if_pos rfl]

/-- The steps of the rule for methods can be exchanged on words with one visibility: a method that
    is opened first is not private any more when it is published, and one that is published first
    loses the final bit when it is opened. -/
theorem exchangeable_publishMethod (name : String) (inInterface : Bool) :
    Exchangeable OneVisibility (publishMethod name inInterface) openMethod where
  first_keeps flags _ := (isPublic_publishMethod name inInterface flags).oneVisibility
  second_keeps flags h :=
    (loosens_removeFinal (loosens_makeProtected h).oneVisibility).oneVisibility
  first_again flags _ := by
    have hpublic := isPublic_publishMethod name inInterface flags
    rw [publishMethod_of_not_private hpublic.2.1]
    exact makePublic_makePublic _
  second_again flags _ := by
    rw [openMethod, openMethod, makeProtected_removeFinal, makeProtected_makeProtected,
      removeFinal_removeFinal]
  exchange flags h := by
    -- In either order the word ends up public and not final.
    have hopened : has (openMethod flags) privateBit = false := by
      rw [openMethod, has_removeFinal (by decide), private_makeProtected h]
    have hpublished := (isPublic_publishMethod name inInterface flags).1
    calc publishMethod name inInterface (openMethod flags)
        = makePublic (openMethod flags) := publishMethod_of_not_private hopened name inInterface
      _ = removeFinal (makePublic flags) := by
          rw [openMethod, makePublic_removeFinal, makePublic_makeProtected]
      _ = removeFinal (publishMethod name inInterface flags) :=
          (removeFinal_publishMethod name inInterface flags).symm
      _ = openMethod (publishMethod name inInterface flags) := by
          rw [openMethod, makeProtected_of_public hpublished]

/-! ### Widening for more levels -/

/-- Widening a class in two goes is widening it once, for whatever the two asked for together. -/
theorem widenClass_union {first second both : AccessSet}
    (hempty : both.isEmpty = (first.isEmpty && second.isEmpty))
    (hextendable : both.extendable = (first.extendable || second.extendable)) (flags : UInt16) :
    widenClass (widenClass flags first) second = widenClass flags both := by
  rw [widenClass_eq, widenClass_eq, widenClass_eq, inTurn_inTurn exchangeable_makePublic trivial,
    hempty, hextendable, Bool.not_and]

theorem widenMethod_union {flags : UInt16} (h : OneVisibility flags) (name : String)
    (first second : AccessSet) (inInterface : Bool) :
    widenMethod (widenMethod flags name first inInterface) name second inInterface =
      widenMethod flags name (first.union second) inInterface := by
  rw [widenMethod_eq, widenMethod_eq, widenMethod_eq,
    inTurn_inTurn (exchangeable_publishMethod name inInterface) h]
  rfl

/-- On a word with two visibilities the order of the goes tells: once it was opened a public and
    private method is private still, and so it is made final when it is published. -/
example : ¬OneVisibility 0x0003 ∧
    widenMethod (widenMethod 0x0003 "open" (.singleton .accessible) false) "open"
      (.singleton .extendable) false = 0x0001 ∧
    widenMethod (widenMethod 0x0003 "open" (.singleton .extendable) false) "open"
      (.singleton .accessible) false = 0x0011 := by decide

theorem widenField_union (flags : UInt16) (first second : AccessSet) :
    widenField (widenField flags first) second = widenField flags (first.union second) := by
  rw [widenField_eq, widenField_eq, widenField_eq, inTurn_inTurn exchangeable_makePublic trivial]
  rfl

/-- Widening a member for some levels and then for others is widening it for all of them. Only a
    method has to have one visibility for that. -/
theorem widenMember_union {kind : MemberKind} {flags : UInt16}
    (h : kind = .method → OneVisibility flags) (name : String) (first second : AccessSet)
    (inInterface : Bool) :
    widenMember kind (widenMember kind flags name first inInterface) name second inInterface =
      widenMember kind flags name (first.union second) inInterface := by
  cases kind with
  | method => exact widenMethod_union (h rfl) name first second inInterface
  | field => exact widenField_union flags first second

/-! ### No harm -/

/-- Two steps that do no harm do none in turn. -/
theorem loosens_inTurn {first second : UInt16 → UInt16}
    (hfirst : ∀ flags, OneVisibility flags → Loosens flags (first flags))
    (hsecond : ∀ flags, OneVisibility flags → Loosens flags (second flags)) {flags : UInt16}
    (h : OneVisibility flags) (a b : Bool) : Loosens flags (inTurn first second a b flags) := by
  have hpassed : Loosens flags (asked first a flags) :=
    asked_elim (Loosens flags) (hfirst flags h) (Loosens.refl h) a
  refine asked_elim (Loosens flags) ?_ hpassed b
  exact hpassed.trans (hsecond _ hpassed.oneVisibility)

/-- The steps of the rules for classes and fields do no harm. -/
theorem loosens_makePublic_removeFinal {flags : UInt16} (h : OneVisibility flags) (a b : Bool) :
    Loosens flags (inTurn makePublic removeFinal a b flags) :=
  loosens_inTurn (fun word _ => loosens_makePublic word)
    (fun _ hword => loosens_removeFinal hword) h a b

theorem loosens_widenClass {flags : UInt16} (h : OneVisibility flags) (access : AccessSet) :
    Loosens flags (widenClass flags access) := by
  rw [widenClass_eq]
  exact loosens_makePublic_removeFinal h _ _

theorem loosens_publishMethod {flags : UInt16} (h : OneVisibility flags) (name : String)
    (inInterface : Bool) : Loosens flags (publishMethod name inInterface flags) := by
  cases inInterface with
  | false => exact (loosens_makeFinalIfPrivate h name).trans (loosens_makePublic _)
  | true => exact loosens_makePublic flags

theorem loosens_openMethod {flags : UInt16} (h : OneVisibility flags) :
    Loosens flags (openMethod flags) :=
  (loosens_makeProtected h).trans (loosens_removeFinal (loosens_makeProtected h).oneVisibility)

theorem loosens_widenMember {flags : UInt16} (h : OneVisibility flags) (kind : MemberKind)
    (name : String) (access : AccessSet) (inInterface : Bool) :
    Loosens flags (widenMember kind flags name access inInterface) := by
  cases kind with
  | method =>
      exact loosens_inTurn (fun word hword => loosens_publishMethod hword name inInterface)
        (fun word hword => loosens_openMethod hword) h access.accessible access.extendable
  | field => exact loosens_makePublic_removeFinal h access.accessible access.mutable

/-! ### Where a final bit comes from -/

/-- Making public and taking the final bit away never make a word final. -/
theorem final_of_inTurn {flags : UInt16} {a b : Bool}
    (h : has (inTurn makePublic removeFinal a b flags) finalBit = true) :
    has flags finalBit = true := by
  have hpassed : has (asked makePublic a flags) finalBit = has flags finalBit :=
    asked_elim (fun word => has word finalBit = has flags finalBit) (final_makePublic flags) rfl a
  cases b with
  | false => exact hpassed ▸ h
  | true =>
      rw [inTurn, asked, if_pos rfl, final_removeFinal] at h
      cases h

theorem final_of_widenClass {flags : UInt16} {access : AccessSet}
    (h : has (widenClass flags access) finalBit = true) : has flags finalBit = true := by
  rw [widenClass_eq] at h
  exact final_of_inTurn h

theorem final_of_widenField {flags : UInt16} {access : AccessSet}
    (h : has (widenField flags access) finalBit = true) : has flags finalBit = true :=
  final_of_inTurn h

/-- A word is made final only if it belongs to a private instance method that is no initialiser. -/
theorem final_of_makeFinalIfPrivate {flags : UInt16} {name : String}
    (h : has (makeFinalIfPrivate flags name) finalBit = true)
    (hbefore : has flags finalBit = false) :
    has flags privateBit = true ∧ has flags staticBit = false ∧ isInitializer name = false := by
  unfold makeFinalIfPrivate at h
  split at h
  next hprivate =>
    simpa only [Bool.and_eq_true, Bool.not_eq_true', and_assoc] using hprivate
  next =>
    rw [hbefore] at h
    cases h

/-- A method that widening makes final was a private instance method of a class, no initialiser, and
    has become public. -/
theorem final_of_widenMethod {flags : UInt16} {name : String} {access : AccessSet}
    {inInterface : Bool} (h : has (widenMethod flags name access inInterface) finalBit = true)
    (hbefore : has flags finalBit = false) :
    has flags privateBit = true ∧ has flags staticBit = false ∧ isInitializer name = false ∧
      inInterface = false ∧ IsPublic (widenMethod flags name access inInterface) := by
  rw [widenMethod_eq, inTurn] at h ⊢
  cases hext : access.extendable with
  | true =>
      -- An opened method is not final.
      rw [hext, asked, if_pos rfl, openMethod, final_removeFinal] at h
      cases h
  | false =>
      rw [hext] at h
      cases hacc : access.accessible with
      | false =>
          rw [hacc] at h
          exact absurd (hbefore.symm.trans h) Bool.false_ne_true
      | true =>
          -- Being published is what makes it final, and being made public has no part in that.
          have hpublic := isPublic_publishMethod name inInterface flags
          have hguarded : has (publishMethod name inInterface flags) finalBit = true := by
            rw [hacc] at h
            exact h
          rw [publishMethod, final_makePublic] at hguarded
          cases inInterface with
          | true =>
              rw [if_pos rfl, hbefore] at hguarded
              cases hguarded
          | false =>
              rw [if_neg Bool.false_ne_true] at hguarded
              rcases final_of_makeFinalIfPrivate hguarded hbefore with ⟨hprivate, hstatic, hname⟩
              exact ⟨hprivate, hstatic, hname, rfl, hpublic⟩

end AccessWidener
