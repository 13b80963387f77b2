import AccessWidener.Proofs.ClassFile.Stored
import AccessWidener.Proofs.Directive.Canonical
import AccessWidener.Proofs.Widening.ClassFile

/-!
# Directives and the Names They Match

A directive names a class and a member as they are spelled, and the parser gives the names of a
class file as they come back from their bytes. For most names this is the same. A directive whose
signature is plain finds the member that is declared under it and no other one, in any class file,
and the member is widened as it is asked (`stored_names_exact`).

A signature with zero or with a character above U+FFFF is never found, since no name comes back with
such a character. The member that it belongs to is listed under replacement characters, and another
one of its kind may be listed under the same. So all names are shown as they are declared if and
only if their characters are common, and it takes just two members with other names to have a
class file in which they cannot be told apart (`names_not_told_apart`).

## Main definitions

* `Blueprint.member?`: The first member with a signature.
* `Blueprint.names`: All names that a blueprint lists.
* `Signature.IsCommon`, `Signature.IsPlain`: Signatures that can come back, and those that come back
  from one spelling only.

## Theorems

* `Shows.member?_eq`, `Shows.signature_eq`, `Shows.respell_iff`: What is shown of members and names.
* `member?_respell_of_plain`, `member?_respell_of_not_common`: Which members are found.
* `stored_names_exact`: What the parser and a widener make of a class file and of its names.
-/

namespace AccessWidener

open ModifiedUtf8 (IsCommonText readBack readBack_eq_iff)

/-! ### Signatures -/

/-- The name and the descriptor have common characters. -/
def Signature.IsCommon (signature : Signature) : Prop :=
  IsCommonText signature.name ∧ IsCommonText signature.descriptor

/-- The name and the descriptor are plain. -/
def Signature.IsPlain (signature : Signature) : Prop :=
  ModifiedUtf8.IsPlain signature.name ∧ ModifiedUtf8.IsPlain signature.descriptor

instance (signature : Signature) : Decidable signature.IsCommon :=
  inferInstanceAs (Decidable (_ ∧ _))

instance (signature : Signature) : Decidable signature.IsPlain :=
  inferInstanceAs (Decidable (_ ∧ _))

theorem Signature.isCommon_respell (signature : Signature) :
    (signature.respell readBack).IsCommon :=
  ⟨ModifiedUtf8.isCommonText_readBack _, ModifiedUtf8.isCommonText_readBack _⟩

/-- A plain signature comes back from itself and from no other one. -/
theorem Signature.respell_eq_iff {plain : Signature} (h : plain.IsPlain) (signature : Signature) :
    signature.respell readBack = plain ↔ signature = plain := by
  rcases plain with ⟨name, descriptor⟩
  rcases signature with ⟨name', descriptor'⟩
  simp only [Signature.respell, Signature.mk.injEq, readBack_eq_iff h.1, readBack_eq_iff h.2]

/-! ### Blueprints -/

namespace Blueprint

/-- The members of one kind, in order. -/
def members (blueprint : Blueprint) : MemberKind → List MemberBlueprint
  | .method => blueprint.methods
  | .field => blueprint.fields

/-- The first member of a kind with a signature. -/
def member? (blueprint : Blueprint) (kind : MemberKind) (signature : Signature) :
    Option MemberBlueprint :=
  (blueprint.members kind).find? (·.signature = signature)

/-- The names of the class, of its supertypes, of its members with their descriptors, and of the
    nested classes. -/
def names (blueprint : Blueprint) : List String :=
  blueprint.name :: (blueprint.superName.toList ++ blueprint.interfaces ++
    blueprint.fields.flatMap (fun field => [field.signature.name, field.signature.descriptor]) ++
    blueprint.methods.flatMap (fun method => [method.signature.name, method.signature.descriptor]) ++
    blueprint.inner.map (·.name))

variable (f : String → String) (blueprint : Blueprint)

theorem members_respell (kind : MemberKind) :
    (blueprint.respell f).members kind = (blueprint.members kind).map (·.respell f) := by
  cases kind <;> rfl

/-- Under a plain signature the same member is found as if it had been read as declared. -/
theorem member?_respell_of_plain (kind : MemberKind) {signature : Signature}
    (h : signature.IsPlain) :
    (blueprint.respell readBack).member? kind signature = blueprint.member? kind signature := by
  have hsame : ∀ member : MemberBlueprint, (member.respell readBack).signature = signature ↔
      member.signature = signature := fun member => Signature.respell_eq_iff h member.signature
  rw [member?, member?, members_respell, List.find?_map]
  simp only [Function.comp_def, hsame]
  cases hfound : (blueprint.members kind).find? (·.signature = signature) with
  | none => rfl
  | some member =>
      -- The signature of the member that was found comes back from itself.
      have hsignature : member.signature = signature := by
        simpa using List.find?_some hfound
      have hback := (Signature.respell_eq_iff h member.signature).mpr hsignature
      rw [Option.map_some, MemberBlueprint.respell, hback, ← hsignature]

/-- Nothing is found under a signature that never comes back. -/
theorem member?_respell_of_not_common (kind : MemberKind) {signature : Signature}
    (h : ¬signature.IsCommon) :
    (blueprint.respell readBack).member? kind signature = none := by
  rw [member?, members_respell, List.find?_eq_none]
  intro member hmem hfound
  rcases List.mem_map.mp hmem with ⟨declared, -, rfl⟩
  rw [decide_eq_true_eq] at hfound
  refine h ?_
  rw [← hfound]
  exact Signature.isCommon_respell declared.signature

end Blueprint

/-! ### Layouts -/

theorem map_eq_self_iff {α : Type} {f : α → α} {items : List α} :
    items.map f = items ↔ ∀ item ∈ items, f item = item := by
  have hiff : items.map f = items.map id ↔ ∀ item ∈ items, f item = id item := List.map_inj_left
  rwa [List.map_id] at hiff

namespace ClassLayout

theorem Shows.members_eq {layout : ClassLayout} {blueprint : Blueprint} (h : layout.Shows blueprint)
    (kind : MemberKind) :
    (layout.members kind).map MemberLayout.shown = blueprint.members kind := by
  cases kind with
  | method => exact h.methods
  | field => exact h.fields

/-- The first member that is found is the first one that is shown. -/
theorem Shows.member?_eq {layout : ClassLayout} {blueprint : Blueprint} (h : layout.Shows blueprint)
    (kind : MemberKind) (signature : Signature) :
    (layout.member? kind signature).map MemberLayout.shown = blueprint.member? kind signature := by
  rw [Blueprint.member?, ← h.members_eq kind, List.find?_map]
  rfl

/-- Each member is shown in its place, under the changed signature. -/
theorem Shows.signature_eq {layout : ClassLayout} {blueprint : Blueprint} {f : String → String}
    (h : layout.Shows (blueprint.respell f)) {kind : MemberKind} {i : Nat}
    {member : MemberBlueprint} (hmember : (blueprint.members kind)[i]? = some member) :
    ((layout.members kind)[i]?).map (·.signature) = some (member.signature.respell f) := by
  have hshown : ((layout.members kind).map MemberLayout.shown)[i]? = some (member.respell f) := by
    rw [h.members_eq kind, Blueprint.members_respell, List.getElem?_map, hmember]
    rfl
  rw [List.getElem?_map] at hshown
  rcases Option.map_eq_some_iff.mp hshown with ⟨found, hfound, heq⟩
  rw [hfound, Option.map_some, Option.some.injEq]
  exact congrArg MemberBlueprint.signature heq

theorem respell_member_eq_self_iff {f : String → String} (member : MemberBlueprint) :
    member.respell f = member ↔ f member.signature.name = member.signature.name ∧
      f member.signature.descriptor = member.signature.descriptor := by
  rcases member with ⟨⟨name, descriptor⟩, flags⟩
  simp only [MemberBlueprint.respell, Signature.respell, MemberBlueprint.mk.injEq,
    Signature.mk.injEq, and_true]

theorem respell_inner_eq_self_iff {f : String → String} (inner : InnerBlueprint) :
    inner.respell f = inner ↔ f inner.name = inner.name := by
  rcases inner with ⟨name, flags⟩
  simp only [InnerBlueprint.respell, InnerBlueprint.mk.injEq, and_true]

/-- A layout with changed names shows the names themselves if and only if none of them changed. -/
theorem Shows.respell_iff {layout : ClassLayout} {blueprint : Blueprint} {f : String → String}
    (h : layout.Shows (blueprint.respell f)) :
    layout.Shows blueprint ↔ ∀ name ∈ blueprint.names, f name = name := by
  -- Flags are not changed, and all else that a layout shows has names in it.
  have hshows : layout.Shows blueprint ↔ f blueprint.name = blueprint.name ∧
      blueprint.superName.map f = blueprint.superName ∧
      blueprint.interfaces.map f = blueprint.interfaces ∧
      blueprint.fields.map (·.respell f) = blueprint.fields ∧
      blueprint.methods.map (·.respell f) = blueprint.methods ∧
      blueprint.inner.map (·.respell f) = blueprint.inner := by
    constructor
    · intro hsame
      exact ⟨h.name.symm.trans hsame.name, h.superName.symm.trans hsame.superName,
        h.interfaces.symm.trans hsame.interfaces, h.fields.symm.trans hsame.fields,
        h.methods.symm.trans hsame.methods, h.inner.symm.trans hsame.inner⟩
    · rintro ⟨hname, hsuper, hinterfaces, hfields, hmethods, hinner⟩
      exact ⟨h.name.trans hname, h.superName.trans hsuper, h.interfaces.trans hinterfaces, h.flags,
        h.fields.trans hfields, h.methods.trans hmethods, h.inner.trans hinner⟩
  have hsuper : blueprint.superName.map f = blueprint.superName ↔
      ∀ name ∈ blueprint.superName.toList, f name = name := by
    cases blueprint.superName <;> simp
  rw [hshows, hsuper]
  simp only [map_eq_self_iff, respell_member_eq_self_iff, respell_inner_eq_self_iff,
    Blueprint.names, List.forall_mem_cons, List.forall_mem_append, List.forall_mem_flatMap,
    List.forall_mem_map, List.not_mem_nil, false_implies, implies_true, and_true, and_assoc]

end ClassLayout

/-! ### Class files -/

namespace Widener

/-- A member that is found in a layout and is granted something is found after widening with the
    flags that are asked for. -/
theorem member?_widened_shown {layout : ClassLayout} {blueprint : Blueprint}
    (h : layout.Shows blueprint) {kind : MemberKind} {signature : Signature}
    {member : MemberBlueprint} (hmember : blueprint.member? kind signature = some member)
    (set : DirectiveSet) :
    ((layout.widened set).member? kind signature).map MemberLayout.shown =
      some ⟨signature, widenMember kind member.flags signature.name
        (set.grantOf (.member kind ⟨blueprint.name, signature⟩)).access
        (Flags.has blueprint.flags Flags.interfaceBit)⟩ := by
  have hshown := h.member?_eq kind signature
  rw [hmember] at hshown
  rcases Option.map_eq_some_iff.mp hshown with ⟨found, hfound, rfl⟩
  have hsignature := (ClassLayout.member?_eq_some hfound).2
  -- The rule asks whether the class is an interface, which its shown flags tell.
  have hinterface : layout.isInterface = Flags.has blueprint.flags Flags.interfaceBit := by
    rw [ClassLayout.isInterface, h.flags]
  rw [ClassLayout.member?_widened_eq, hfound, Option.map_some, Option.map_some,
    ClassLayout.widenDeclared, hsignature, if_pos hfound, h.name, hinterface]
  rw [← hsignature]
  rfl

/-- What the parser and a widener make of a class file and of its names. The file parses, and
    everything in it is shown under the name that comes back, which is the declared one for all of
    them if and only if all have common characters. Under a plain signature the first member that is
    declared under it is found, no member of another signature is shown under it, and widening gives
    the member the flags that a set asks for. Under a signature that has other than common
    characters nothing is ever found. -/
theorem stored_names_exact {file : StoredClass} (hfits : file.Fits) {blueprint : Blueprint}
    (hdeclares : file.Declares blueprint) :
    ∃ layout, ClassLayout.parse file.encode = .ok layout ∧
      layout.Shows (blueprint.respell readBack) ∧
      (layout.Shows blueprint ↔ ∀ name ∈ blueprint.names, IsCommonText name) ∧
      (∀ kind signature, signature.IsPlain →
        (layout.member? kind signature).map MemberLayout.shown =
          blueprint.member? kind signature) ∧
      (∀ kind signature, ¬signature.IsCommon → layout.member? kind signature = none) ∧
      (∀ kind (i j : Nat) first second, (blueprint.members kind)[i]? = some first →
        (blueprint.members kind)[j]? = some second → first.signature.IsPlain →
          first.signature ≠ second.signature →
            ((layout.members kind)[i]?).map (·.signature) ≠
              ((layout.members kind)[j]?).map (·.signature)) ∧
      ∀ set widener, ofSet set = .ok widener →
        ∃ widened, (∀ order, ClassLayout.parse (widener.patchClass file.encode order).1 =
            .ok widened) ∧
          ∀ kind signature member, signature.IsPlain →
            blueprint.member? kind signature = some member →
            (widened.member? kind signature).map MemberLayout.shown =
              some ⟨signature, widenMember kind member.flags signature.name
                (set.grantOf (.member kind ⟨readBack blueprint.name, signature⟩)).access
                (Flags.has blueprint.flags Flags.interfaceBit)⟩ := by
  rcases parse_stored hfits hdeclares with ⟨layout, hparse, hshows⟩
  refine ⟨layout, hparse, hshows, ?_, ?_, ?_, ?_, ?_⟩
  · -- The class is shown as it was meant exactly if every name reads back as itself.
    rw [hshows.respell_iff]
    exact forall₂_congr fun name _ => ModifiedUtf8.readBack_eq_self_iff name
  · intro kind signature hplain
    rw [hshows.member?_eq, Blueprint.member?_respell_of_plain blueprint kind hplain]
  · intro kind signature hother
    -- What is read back is common text, so nothing else is ever found.
    have hshown := hshows.member?_eq kind signature
    rw [Blueprint.member?_respell_of_not_common blueprint kind hother] at hshown
    exact Option.map_eq_none_iff.mp hshown
  · intro kind i j first second hfirst hsecond hplain hne hsame
    -- Only a plain signature is read back as this one, so a second one equal to it is the same.
    rw [hshows.signature_eq hfirst, hshows.signature_eq hsecond, Option.some.injEq,
      (Signature.respell_eq_iff hplain _).mpr rfl] at hsame
    exact hne ((Signature.respell_eq_iff hplain _).mp hsame.symm).symm
  · intro set widener hset
    refine ⟨layout.widened set, fun order => parse_patchClass hset hparse order, ?_⟩
    intro kind signature member hplain hmember
    -- Widening keeps names, so the lookup still finds what it found before.
    have hback := Blueprint.member?_respell_of_plain blueprint kind hplain
    exact member?_widened_shown hshows (hback.trans hmember) set

/-- What the next class file declares. -/
def mixedChest : Blueprint where
  name := "Chest"
  flags := 0x21
  superName := none
  methods := [⟨⟨"öffne", "()V"⟩, 0x02⟩, ⟨⟨"𝑎", "()V"⟩, 0x02⟩, ⟨⟨"𝑏", "()V"⟩, 0x02⟩]
  inner := [⟨"Chest$漢", 0x08⟩]

/-- A class file with three private methods. The names of two of them are letters above U+FFFF. -/
def mixedFile : StoredClass where
  minor := 0
  major := 61
  constants := [.utf8 (ModifiedUtf8.encode "Chest"), .classRef 1,
    .utf8 (ModifiedUtf8.encode "öffne"), .utf8 (ModifiedUtf8.encode "()V"),
    .utf8 (ModifiedUtf8.encode "𝑎"), .utf8 (ModifiedUtf8.encode "𝑏"),
    .utf8 (ModifiedUtf8.encode innerClassesName), .utf8 (ModifiedUtf8.encode "Chest$漢"),
    .classRef 8]
  flags := 0x21
  thisClass := 2
  superClass := 0
  interfaces := []
  fields := []
  methods := [⟨0x02, 3, 4, [⟨4, [1, 2, 3]⟩]⟩, ⟨0x02, 5, 4, []⟩, ⟨0x02, 6, 4, []⟩]
  attributes := [.listing 7 [⟨9, 2, 0, 0x08⟩]]

theorem fits_mixedFile : mixedFile.Fits where
  constants := by decide
  slots := by decide
  interfaces := by decide
  fields := ⟨by decide, by decide⟩
  methods := ⟨by decide, by decide⟩
  attributes := ⟨by decide, by decide⟩

theorem declares_mixedFile : mixedFile.Declares mixedChest where
  name := ⟨1, by decide, by decide +kernel⟩
  superName := rfl
  interfaces := .nil
  flags := rfl
  fields := .nil
  methods := .cons ⟨rfl, by decide +kernel, by decide +kernel⟩
    (.cons ⟨rfl, by decide +kernel, by decide +kernel⟩
      (.cons ⟨rfl, by decide +kernel, by decide +kernel⟩ .nil))
  inner := by
    have hentry : StoredInner.Declares mixedFile.pool ⟨9, 2, 0, 0x08⟩ ⟨"Chest$漢", 0x08⟩ :=
      ⟨rfl, 8, by decide +kernel, by decide +kernel⟩
    have hname : mixedFile.pool.Spells 7 innerClassesName := by decide +kernel
    have hlisting : StoredAttribute.Declares mixedFile.pool (.listing 7 [⟨9, 2, 0, 0x08⟩])
        mixedChest.inner := .nested hname (by decide) (.cons hentry .nil)
    exact ⟨[mixedChest.inner], .cons hlisting .nil, rfl⟩

/-- A set that asks for the method whose name is plain. -/
def plainSet : DirectiveSet :=
  .ofDirectives [⟨.member .method ⟨"Chest", ⟨"öffne", "()V"⟩⟩, .accessible, false⟩]

/-- The method whose name is plain is found, and widening makes it public and final. The others are
    not found. -/
theorem stored_names_exact_mixedFile :
    mixedFile.Fits ∧ mixedFile.Declares mixedChest ∧
      ∃ layout, ClassLayout.parse mixedFile.encode = .ok layout ∧ ¬layout.Shows mixedChest ∧
        (layout.member? .method ⟨"öffne", "()V"⟩).map MemberLayout.shown =
          some ⟨⟨"öffne", "()V"⟩, 0x02⟩ ∧
        layout.member? .method ⟨"𝑎", "()V"⟩ = none ∧
        ∃ widener widened, ofSet plainSet = .ok widener ∧
          ClassLayout.parse (widener.patchClass mixedFile.encode).1 = .ok widened ∧
          (widened.member? .method ⟨"öffne", "()V"⟩).map MemberLayout.shown =
            some ⟨⟨"öffne", "()V"⟩, 0x11⟩ := by
  have hset : plainSet.isEmpty = false := by decide +kernel
  have hplain : Signature.IsPlain ⟨"öffne", "()V"⟩ := by decide +kernel
  have hmember : mixedChest.member? .method ⟨"öffne", "()V"⟩ =
      some ⟨⟨"öffne", "()V"⟩, 0x02⟩ := by
    decide
  rcases exists_ofSet hset with ⟨widener, hwidener⟩
  rcases stored_names_exact fits_mixedFile declares_mixedFile with
    ⟨layout, hparse, -, hnames, hfound, hlost, -, hwidened⟩
  rcases hwidened plainSet widener hwidener with ⟨widened, hpatched, hflags⟩
  have hflags := hflags .method _ _ hplain hmember
  -- The private method becomes public and final.
  have hpublic : widenMember .method 0x02 "öffne" (plainSet.grantOf
      (.member .method ⟨readBack mixedChest.name, ⟨"öffne", "()V"⟩⟩)).access
        (Flags.has mixedChest.flags Flags.interfaceBit) = 0x11 := by
    decide +kernel
  rw [hpublic] at hflags
  refine ⟨fits_mixedFile, declares_mixedFile, layout, hparse, ?_, ?_, ?_, widener, widened,
    hwidener, hpatched .sorted, hflags⟩
  · rw [hnames]
    decide +kernel
  · rw [hfound .method _ hplain, hmember]
  · exact hlost .method _ (by decide +kernel)

/-- What is found in the class file. -/
def mixedLayout : ClassLayout where
  name := "Chest"
  superName := none
  interfaces := []
  access := ⟨84, 0x21⟩
  fields := []
  methods := [⟨⟨"öffne", "()V"⟩, ⟨96, 0x02⟩⟩,
    ⟨⟨"\uFFFD\uFFFD\uFFFD\uFFFD\uFFFD\uFFFD", "()V"⟩, ⟨113, 0x02⟩⟩,
    ⟨⟨"\uFFFD\uFFFD\uFFFD\uFFFD\uFFFD\uFFFD", "()V"⟩, ⟨121, 0x02⟩⟩]
  inner := [⟨"Chest$漢", ⟨145, 0x08⟩⟩]

/-- A file of directives that asks for one method to be accessible. -/
def letterDirectives : Bytes :=
  Utf8.encodeString "accessWidener v2 named\naccessible method Chest 𝑎 ()V\n"

/-- The set that the file is read as. -/
def letterSet : DirectiveSet :=
  { DirectiveSet.ofDirectives [⟨.member .method ⟨"Chest", ⟨"𝑎", "()V"⟩⟩, .accessible, false⟩] with
    ns := some .named }

/-- Two methods are declared under different names and cannot be told apart in the layout. The
    directives name one of them, and widening leaves the class file as it was. -/
theorem names_not_told_apart :
    mixedFile.Fits ∧ mixedFile.Declares mixedChest ∧
      mixedChest.member? .method ⟨"𝑎", "()V"⟩ = some ⟨⟨"𝑎", "()V"⟩, 0x02⟩ ∧
      mixedChest.member? .method ⟨"𝑏", "()V"⟩ = some ⟨⟨"𝑏", "()V"⟩, 0x02⟩ ∧
      ClassLayout.parse mixedFile.encode = .ok mixedLayout ∧ ¬mixedLayout.Shows mixedChest ∧
      (∃ first ∈ mixedLayout.methods, ∃ second ∈ mixedLayout.methods,
        first ≠ second ∧ first.signature = second.signature) ∧
      mixedLayout.member? .method ⟨"𝑎", "()V"⟩ = none ∧
      DirectiveSet.ofFile letterDirectives = .ok letterSet ∧
      ∃ widener, ofSet letterSet = .ok widener ∧
        widener.patchClass mixedFile.encode = (mixedFile.encode, .ok false) := by
  have hset : letterSet.isEmpty = false := by decide +kernel
  have hparse : ClassLayout.parse mixedFile.encode = .ok mixedLayout := by decide +kernel
  have hwidened : mixedLayout.widened letterSet = mixedLayout := by decide +kernel
  have hread : DirectiveSet.ofFile letterDirectives = .ok letterSet := by decide +kernel
  rcases exists_ofSet hset with ⟨widener, hwidener⟩
  refine ⟨fits_mixedFile, declares_mixedFile, by decide, by decide, hparse, ?_, by decide,
    by decide, hread, widener, hwidener, patchClass_of_widened hwidener hparse hwidened .sorted⟩
  -- Two of the methods meant have one name in the file.
  intro hshows
  have hmethods : mixedLayout.methods.map MemberLayout.shown ≠ mixedChest.methods := by decide
  exact hmethods hshows.methods

end Widener

end AccessWidener
