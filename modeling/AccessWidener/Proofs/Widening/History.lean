import AccessWidener.Proofs.Widening.Composition

/-!
# The History of a Class File

A class file may be widened again and again, for one directive set and then another, by wideners
that know nothing of each other. Whatever has happened to it, and whatever happens to it next,
nothing in it is ever hidden from anybody who could see it.

One step is a matter of the rules for flag words: each of them does no harm (`loosens_widenClass`,
`loosens_widenMember`), given a word with at most one visibility, and leaves a word with at most one
visibility behind. That is the invariant that carries a whole history. The step and the history are
described by one relation between layouts, `ClassLayout.Loosened`, which composes.

There is one thing that widening takes away. A private instance method becomes final when it becomes
public, and final means that nobody may override it. But nobody could while it was private, and no
sequence of steps leads to another final method: what is private at some step was private from the
start, and what has been made public stays public.

## Main definitions

* `MemberLayout.Published`: A method that nobody could override becomes public.
* `FlagSite.Loosened`, `MemberLayout.Loosened`, `InnerLayout.Loosened`, `ClassLayout.Loosened`: A
  class file changes without harm.
* `ClassLayout.Legal`: No flag word has more than one visibility.
* `Widener.Becomes`: What a class file becomes by being widened time and again.

## Theorems

* `loosened_widened`, `legal_widened`: What one step does, and the invariant that it keeps.
* `ClassLayout.Loosened.trans`: Harmless changes compose.
* `patchClass_loosens`, `Becomes.loosensFile`: What a step does to a file, and a whole history.
* `history_loosens`: Access is never narrowed.
-/

namespace AccessWidener

open Flags

/-! ### Harmless changes of a layout -/

/-- A private instance method of a class that is no initialiser, and that nobody could override for
    that reason, becomes public and nothing else. -/
structure MemberLayout.Published (kind : MemberKind) (inInterface : Bool)
    (before after : MemberLayout) : Prop where
  isMethod : kind = .method
  inClass : inInterface = false
  wasPrivate : has before.access.flags privateBit = true
  ofInstance : has before.access.flags staticBit = false
  noInitializer : isInitializer before.signature.name = false
  isPublic : IsPublic after.access.flags

/-- A flag word changes where it stands and does no harm. It becomes final only with an excuse. -/
structure FlagSite.Loosened (excuse : Prop) (before after : FlagSite) : Prop where
  offset : after.offset = before.offset
  loosens : Loosens before.flags after.flags
  final : has before.flags finalBit = false → has after.flags finalBit = true → excuse

/-- A member changes without harm. It becomes final only if it is published. -/
structure MemberLayout.Loosened (kind : MemberKind) (inInterface : Bool)
    (before after : MemberLayout) : Prop where
  signature : after.signature = before.signature
  access : before.access.Loosened (Published kind inInterface before after) after.access

/-- An entry for a nested class changes without harm and does not become final. -/
structure InnerLayout.Loosened (before after : InnerLayout) : Prop where
  name : after.name = before.name
  access : before.access.Loosened False after.access

/-- A class file changes without harm: the same members and nested classes in the same places, and
    no flag word narrowed. -/
structure ClassLayout.Loosened (before after : ClassLayout) : Prop where
  name : after.name = before.name
  superName : after.superName = before.superName
  interfaces : after.interfaces = before.interfaces
  access : before.access.Loosened False after.access
  members : ∀ kind, List.Forall₂ (MemberLayout.Loosened kind before.isInterface)
    (before.members kind) (after.members kind)
  inner : List.Forall₂ InnerLayout.Loosened before.inner after.inner

/-- No flag word of a class file has more than one visibility. -/
def ClassLayout.Legal (layout : ClassLayout) : Prop :=
  ∀ site ∈ layout.sites, OneVisibility site.flags

instance (layout : ClassLayout) : Decidable layout.Legal :=
  inferInstanceAs (Decidable (∀ site ∈ layout.sites, OneVisibility site.flags))

/-! ### Changes compose -/

/-- A word that does not become final needs no excuse. -/
theorem FlagSite.Loosened.of_final {excuse : Prop} {before after : FlagSite}
    (hoffset : after.offset = before.offset) (h : Loosens before.flags after.flags)
    (hfinal : has after.flags finalBit = true → has before.flags finalBit = true) :
    before.Loosened excuse after := by
  refine ⟨hoffset, h, fun hbefore hafter => ?_⟩
  rw [hfinal hafter] at hbefore
  cases hbefore

theorem FlagSite.Loosened.refl {excuse : Prop} {site : FlagSite} (h : OneVisibility site.flags) :
    site.Loosened excuse site :=
  .of_final rfl (.refl h) id

/-- Two changes of a flag word compose, as far as an excuse for one of them is one for both. -/
theorem FlagSite.Loosened.trans {p q r : Prop} {a b c : FlagSite} (hab : a.Loosened p b)
    (hbc : b.Loosened q c) (hp : p → r) (hq : q → r) : a.Loosened r c := by
  refine ⟨hbc.offset.trans hab.offset, hab.loosens.trans hbc.loosens, fun hbefore hafter => ?_⟩
  cases hbetween : has b.flags finalBit with
  | true => exact hp (hab.final hbefore hbetween)
  | false => exact hq (hbc.final hbetween hafter)

theorem MemberLayout.Loosened.trans {kind : MemberKind} {inInterface : Bool} {a b c : MemberLayout}
    (hab : a.Loosened kind inInterface b) (hbc : b.Loosened kind inInterface c) :
    a.Loosened kind inInterface c := by
  refine ⟨hbc.signature.trans hab.signature, hab.access.trans hbc.access (fun hp => ?_)
    (fun hq => ?_)⟩
  · -- Published in the first step, it stays public in the second.
    exact { hp with isPublic := hbc.access.loosens.isPublic hp.isPublic }
  · -- Private between the steps, it was private before the first.
    have hstatic : has b.access.flags staticBit = has a.access.flags staticBit :=
      hab.access.loosens.has_eq (by decide)
    exact
      { isMethod := hq.isMethod
        inClass := hq.inClass
        wasPrivate := hab.access.loosens.private_of_private hq.wasPrivate
        ofInstance := hstatic ▸ hq.ofInstance
        noInitializer := hab.signature ▸ hq.noInitializer
        isPublic := hq.isPublic }

theorem InnerLayout.Loosened.trans {a b c : InnerLayout} (hab : a.Loosened b) (hbc : b.Loosened c) :
    a.Loosened c :=
  ⟨hbc.name.trans hab.name, hab.access.trans hbc.access id id⟩

/-- Changes of a list, item by item, compose if the changes of an item do. -/
theorem forall₂_trans {α : Type} {R : α → α → Prop} {l m n : List α} (hlm : List.Forall₂ R l m)
    (hmn : List.Forall₂ R m n) (hR : ∀ a b c, R a b → R b c → R a c) : List.Forall₂ R l n := by
  induction hlm generalizing n with
  | nil => exact hmn
  | cons hab _ ih =>
      cases hmn with
      | cons hbc hrest => exact .cons (hR _ _ _ hab hbc) (ih hrest)

/-- What no change of an item affects is the same all along the list. -/
theorem map_eq_of_forall₂ {α β : Type} {R : α → α → Prop} {f : α → β} {l m : List α}
    (h : List.Forall₂ R l m) (hf : ∀ a b, R a b → f b = f a) : m.map f = l.map f := by
  induction h with
  | nil => rfl
  | cons hab _ ih => rw [List.map_cons, List.map_cons, hf _ _ hab, ih]

namespace ClassLayout

/-- A class that changes without harm does not become an interface, nor cease to be one. -/
theorem Loosened.isInterface_eq {a b : ClassLayout} (h : a.Loosened b) :
    b.isInterface = a.isInterface :=
  h.access.loosens.has_eq (by decide)

theorem Loosened.trans {a b c : ClassLayout} (hab : a.Loosened b) (hbc : b.Loosened c) :
    a.Loosened c where
  name := hbc.name.trans hab.name
  superName := hbc.superName.trans hab.superName
  interfaces := hbc.interfaces.trans hab.interfaces
  access := hab.access.trans hbc.access id id
  members kind := by
    have hmembers := hbc.members kind
    rw [hab.isInterface_eq] at hmembers
    exact forall₂_trans (hab.members kind) hmembers (fun _ _ _ h h' => h.trans h')
  inner := forall₂_trans hab.inner hbc.inner (fun _ _ _ h h' => h.trans h')

/-- A harmless change leaves the flag words in their places. -/
theorem Loosened.offsets_eq {a b : ClassLayout} (h : a.Loosened b) :
    b.sites.map (·.offset) = a.sites.map (·.offset) := by
  have hmembers : ∀ kind, (b.members kind).map (·.access.offset) =
      (a.members kind).map (·.access.offset) :=
    fun kind => map_eq_of_forall₂ (h.members kind) (fun _ _ hmember => hmember.access.offset)
  have hinner : b.inner.map (·.access.offset) = a.inner.map (·.access.offset) :=
    map_eq_of_forall₂ h.inner (fun _ _ hinner => hinner.access.offset)
  have hfields := hmembers .field
  have hmethods := hmembers .method
  simp only [ClassLayout.members] at hfields hmethods
  simp only [sites, List.map_append, List.map_cons, List.map_map, Function.comp_def, hfields,
    hmethods, hinner, h.access.offset]

/-- The flag words of a layout are those of its class, its members and its entries. -/
theorem legal_iff (layout : ClassLayout) :
    layout.Legal ↔ OneVisibility layout.access.flags ∧
      (∀ kind, ∀ member ∈ layout.members kind, OneVisibility member.access.flags) ∧
      ∀ inner ∈ layout.inner, OneVisibility inner.access.flags := by
  have hkinds : (∀ kind, ∀ member ∈ layout.members kind, OneVisibility member.access.flags) ↔
      (∀ field ∈ layout.fields, OneVisibility field.access.flags) ∧
        ∀ method ∈ layout.methods, OneVisibility method.access.flags := by
    refine ⟨fun h => ⟨h .field, h .method⟩, fun h kind => ?_⟩
    cases kind with
    | field => exact h.1
    | method => exact h.2
  rw [hkinds]
  simp only [Legal, sites, List.cons_append, List.forall_mem_cons, List.forall_mem_append,
    List.forall_mem_map, and_assoc]

/-- A class file that does not change does not change for the worse. -/
theorem Loosened.refl {layout : ClassLayout} (h : layout.Legal) : layout.Loosened layout := by
  rcases (legal_iff layout).mp h with ⟨hclass, hmembers, hinner⟩
  refine ⟨rfl, rfl, rfl, .refl hclass, fun kind => ?_, ?_⟩
  · exact List.forall₂_same.mpr (fun member hmem => ⟨rfl, .refl (hmembers kind member hmem)⟩)
  · exact List.forall₂_same.mpr (fun inner hmem => ⟨rfl, .refl (hinner inner hmem)⟩)

/-! ### One step -/

/-- A flag word of a class, its own or that of an entry, changes without harm. -/
theorem loosened_widenClass {site : FlagSite} (h : OneVisibility site.flags) (access : AccessSet) :
    site.Loosened False { site with flags := widenClass site.flags access } :=
  .of_final rfl (loosens_widenClass h access) final_of_widenClass

/-- Only the rule for methods makes a word final, and it does so to publish a method. -/
theorem published_of_widenMember {kind : MemberKind} {member : MemberLayout} {access : AccessSet}
    {inInterface : Bool} (hbefore : has member.access.flags finalBit = false)
    (hafter : has (widenMember kind member.access.flags member.signature.name access inInterface)
      finalBit = true) :
    member.Published kind inInterface { member with access := { member.access with
      flags := widenMember kind member.access.flags member.signature.name access inInterface } } := by
  cases kind with
  | field =>
      -- A field never becomes final.
      rw [final_of_widenField hafter] at hbefore
      cases hbefore
  | method =>
      rcases final_of_widenMethod hafter hbefore with
        ⟨hprivate, hstatic, hname, hinterface, hpublic⟩
      exact ⟨rfl, hinterface, hprivate, hstatic, hname, hpublic⟩

theorem loosened_widenDeclared (set : DirectiveSet) (layout : ClassLayout) (kind : MemberKind)
    {member : MemberLayout} (h : OneVisibility member.access.flags) :
    member.Loosened kind layout.isInterface (layout.widenDeclared set kind member) := by
  unfold widenDeclared
  split
  next => exact ⟨rfl, rfl, loosens_widenMember h kind _ _ _, published_of_widenMember⟩
  next => exact ⟨rfl, .refl h⟩

/-- Widening does no harm to a legal class file. -/
theorem loosened_widened (set : DirectiveSet) {layout : ClassLayout} (h : layout.Legal) :
    layout.Loosened (layout.widened set) := by
  rcases (legal_iff layout).mp h with ⟨hclass, hmembers, hinner⟩
  refine ⟨rfl, rfl, rfl, loosened_widenClass hclass _, fun kind => ?_, ?_⟩
  · rw [members_widened, List.forall₂_map_right_iff, List.forall₂_same]
    exact fun member hmem => loosened_widenDeclared set layout kind (hmembers kind member hmem)
  · rw [widened, List.forall₂_map_right_iff, List.forall₂_same]
    exact fun inner hmem => ⟨rfl, loosened_widenClass (hinner inner hmem) _⟩

/-- Widening leaves a legal class file. -/
theorem legal_widened (set : DirectiveSet) {layout : ClassLayout} (h : layout.Legal) :
    (layout.widened set).Legal := by
  rcases (legal_iff layout).mp h with ⟨hclass, hmembers, hinner⟩
  refine (legal_iff _).mpr ⟨(loosens_widenClass hclass _).oneVisibility, fun kind => ?_, ?_⟩
  · rw [members_widened, List.forall_mem_map]
    intro member hmem
    have hstep := loosened_widenDeclared set layout kind (hmembers kind member hmem)
    exact hstep.access.loosens.oneVisibility
  · rw [widened, List.forall_mem_map]
    exact fun inner hmem => (loosens_widenClass (hinner inner hmem) _).oneVisibility

end ClassLayout

/-! ### Histories -/

/-- A class file changes without harm: its layout does, its length stays, and so does every byte
    outside its flag words. -/
structure LoosensFile (before after : Bytes) (layout layout' : ClassLayout) : Prop where
  parse_before : ClassLayout.parse before = .ok layout
  parse_after : ClassLayout.parse after = .ok layout'
  loosened : layout.Loosened layout'
  length_eq : after.length = before.length
  outside : ∀ i, (∀ site ∈ layout.sites, i ≠ site.offset ∧ i ≠ site.offset + 1) →
    after[i]? = before[i]?

theorem LoosensFile.trans {a b c : Bytes} {k l m : ClassLayout} (hab : LoosensFile a b k l)
    (hbc : LoosensFile b c l m) : LoosensFile a c k m := by
  refine ⟨hab.parse_before, hbc.parse_after, hab.loosened.trans hbc.loosened,
    hbc.length_eq.trans hab.length_eq, fun i hi => ?_⟩
  have houtside := (ClassLayout.outside_iff hab.loosened.offsets_eq i).mpr hi
  rw [hbc.outside i houtside, hab.outside i hi]

namespace Widener

/-- What a file becomes by being widened any number of times, for whatever sets and in whatever
    orders of members. -/
inductive Becomes (bytes : Bytes) : Bytes → Prop where
  | start : Becomes bytes bytes
  | widened {held : Bytes} {set : DirectiveSet} {widener : Widener} (order : MemberOrder)
      (history : Becomes bytes held) (hset : ofSet set = .ok widener) :
      Becomes bytes (widener.patchClass held order).1

variable {set : DirectiveSet} {widener : Widener} {bytes : Bytes} {layout : ClassLayout}

/-- One step on a legal class file does not fail and does no harm, and it leaves a legal one. -/
theorem patchClass_loosens (hset : ofSet set = .ok widener)
    (hparse : ClassLayout.parse bytes = .ok layout) (hlegal : layout.Legal) (order : MemberOrder) :
    ∃ left layout', widener.patchClass bytes order = (left, .ok (decide (left ≠ bytes))) ∧
      LoosensFile bytes left layout layout' ∧ layout'.Legal := by
  rcases patchClass_of_parse hset hparse with ⟨left, hleft, hlength, houtside, hparse'⟩
  exact ⟨left, layout.widened set, hleft order,
    ⟨hparse, hparse', ClassLayout.loosened_widened set hlegal, hlength, houtside⟩,
    ClassLayout.legal_widened set hlegal⟩

/-- A whole history does no harm to a legal class file, and leaves a legal one. -/
theorem Becomes.loosensFile (hparse : ClassLayout.parse bytes = .ok layout)
    (hlegal : layout.Legal) {held : Bytes} (h : Becomes bytes held) :
    ∃ layout', LoosensFile bytes held layout layout' ∧ layout'.Legal := by
  induction h with
  | start =>
      exact ⟨layout, ⟨hparse, hparse, .refl hlegal, rfl, fun _ _ => rfl⟩, hlegal⟩
  | widened order _ hset ih =>
      -- Being legal is what one step leaves for the next.
      rcases ih with ⟨between, hhistory, hbetween⟩
      rcases patchClass_loosens hset hhistory.parse_after hbetween order with
        ⟨left, layout', hleft, hstep, hlegal'⟩
      rw [hleft]
      exact ⟨layout', hhistory.trans hstep, hlegal'⟩

/-- Access is never narrowed. Take a class file no flag word of which has more than one visibility,
    and what it has become after any number of widenings. Everything that has happened to it did no
    harm, and neither does any widening that happens next, which does not fail either. -/
theorem history_loosens (hparse : ClassLayout.parse bytes = .ok layout) (hlegal : layout.Legal)
    {held : Bytes} (h : Becomes bytes held) :
    ∃ layout', LoosensFile bytes held layout layout' ∧
      ∀ set widener order, ofSet set = .ok widener →
        ∃ left layout'', widener.patchClass held order = (left, .ok (decide (left ≠ held))) ∧
          LoosensFile held left layout' layout'' := by
  -- The file is legal still, and that is all that the next step needs to know of the history.
  rcases h.loosensFile hparse hlegal with ⟨layout', hhistory, hlegal'⟩
  refine ⟨layout', hhistory, fun set widener order hset => ?_⟩
  rcases patchClass_loosens hset hhistory.parse_after hlegal' order with
    ⟨left, layout'', hleft, hstep, -⟩
  exact ⟨left, layout'', hleft, hstep⟩

/-- A private method is made public, and final with that. Then it is opened. -/
theorem history_loosens_publishedMethod :
    ∃ published opened layout held layout' left layout'',
      ofSet publishedSet = .ok published ∧ ofSet oneMethodSet = .ok opened ∧
      ClassLayout.parse oneMethodClass = .ok layout ∧ layout.Legal ∧
      Becomes oneMethodClass held ∧ LoosensFile oneMethodClass held layout layout' ∧
      opened.patchClass held = (left, .ok (decide (left ≠ held))) ∧
      LoosensFile held left layout' layout'' ∧
      layout.methods = [⟨⟨"open", "()V"⟩, ⟨66, 0x02⟩⟩] ∧
      layout'.methods = [⟨⟨"open", "()V"⟩, ⟨66, 0x11⟩⟩] ∧
      layout''.methods = [⟨⟨"open", "()V"⟩, ⟨66, 0x01⟩⟩] := by
  have hpublishes : publishedSet.isEmpty = false := by decide
  have hopens : oneMethodSet.isEmpty = false := by decide
  rcases exists_ofSet hpublishes with ⟨published, hpublished⟩
  rcases exists_ofSet hopens with ⟨opened, hopened⟩
  have hparse : ClassLayout.parse oneMethodClass = .ok ⟨"Box", some "java/lang/Object", [],
      ⟨54, 0x20⟩, [], [⟨⟨"open", "()V"⟩, ⟨66, 0x02⟩⟩], []⟩ := by decide
  have hfirst : Becomes oneMethodClass (published.patchClass oneMethodClass .sorted).1 :=
    .widened .sorted .start hpublished
  rcases history_loosens hparse (by decide) hfirst with ⟨layout', hhistory, hnext⟩
  rcases hnext oneMethodSet opened .sorted hopened with ⟨left, layout'', hleft, hstep⟩
  -- The first pass makes the private method final, the second takes that away again.
  have hpublic := parse_patchClass hpublished hparse .sorted
  have hopen := parse_patchClass hopened hpublic .sorted
  rw [hhistory.parse_after] at hpublic
  rw [hleft, hstep.parse_after] at hopen
  cases hpublic
  cases hopen
  exact ⟨published, opened, _, _, _, left, _, hpublished, hopened, hparse, by decide, hfirst,
    hhistory, hleft, hstep, by decide, by decide, by decide⟩

end Widener

end AccessWidener
