import AccessWidener.Proofs.ClassFile.Assembly
import AccessWidener.Proofs.Text.ModifiedUtf8

/-!
# Names in Class Files

A class file does not hold names. It holds numbers, the numbers stand for constants, and some of the
constants are texts in modified UTF-8. Here a class file is given part by part, with any constants,
any attributes and of any version, and what it declares is said by its own encoding: a number spells
a text if the constant of that number has the bytes of the text.

The parser decodes these bytes as if they were UTF-8. So it finds every part that is declared, in
order and with its flags, under the name that is left of the declared one (`parse_stored`). The one
name that the parser acts on itself, that of the attribute for nested classes, is plain, and is
found if and only if it is there.

## Main definitions

* `StoredClass`: A class file, part by part, and `StoredClass.encode`, its bytes.
* `ConstantPool.Spells`, `ConstantPool.SpellsClass`: What a number spells.
* `StoredClass.Declares`: The class file declares what a blueprint lists.
* `StoredClass.Fits`: The places for lengths and numbers suffice.
* `Blueprint.respell`: A blueprint with other names.

## Theorems

* `Spells.text`, `SpellsClass.className`: What the parser finds for a number.
* `yields_storedMember`, `yields_storedAttribute`: Parts are read as what they declare.
* `parse_stored`: What the parser finds in a class file.
-/

namespace AccessWidener

open Reader Assembler

/-! ### Class files, part by part -/

/-- An attribute: the number of its name, and its contents. -/
structure StoredAttribute where
  name : UInt16
  contents : Bytes

/-- A field or method: its flags, the numbers of its name and of its descriptor, and its own
    attributes. -/
structure StoredMember where
  flags : UInt16
  name : UInt16
  descriptor : UInt16
  attributes : List StoredAttribute

/-- An entry for a nested class: the numbers of the class, of the class around it and of its simple
    name, and its flags. -/
structure StoredInner where
  inner : UInt16
  outer : UInt16
  simple : UInt16
  flags : UInt16

/-- A class file. -/
structure StoredClass where
  minor : UInt16
  major : UInt16
  constants : PoolDraft
  flags : UInt16
  thisClass : UInt16
  superClass : UInt16
  interfaces : List UInt16
  fields : List StoredMember
  methods : List StoredMember
  attributes : List StoredAttribute

/-- The bytes of an attribute. -/
def StoredAttribute.encode (stored : StoredAttribute) : Bytes :=
  attributeOf stored.name stored.contents

/-- The bytes of a member. -/
def StoredMember.encode (stored : StoredMember) : Bytes :=
  Bytes.ofUInt16 stored.flags ++ Bytes.ofUInt16 stored.name ++ Bytes.ofUInt16 stored.descriptor ++
    table (stored.attributes.map StoredAttribute.encode)

/-- The bytes of an entry for a nested class. -/
def StoredInner.encode (stored : StoredInner) : Bytes :=
  Bytes.ofUInt16 stored.inner ++ Bytes.ofUInt16 stored.outer ++ Bytes.ofUInt16 stored.simple ++
    Bytes.ofUInt16 stored.flags

/-- The attribute with a table of entries for nested classes. -/
def StoredAttribute.listing (name : UInt16) (entries : List StoredInner) : StoredAttribute :=
  { name, contents := table (entries.map StoredInner.encode) }

/-- The bytes of a class file. -/
def StoredClass.encode (file : StoredClass) : Bytes :=
  Bytes.ofUInt32 ClassLayout.magic ++ Bytes.ofUInt16 file.minor ++ Bytes.ofUInt16 file.major ++
    Blueprint.assemblePool file.constants ++
    (Bytes.ofUInt16 file.flags ++ Bytes.ofUInt16 file.thisClass ++ Bytes.ofUInt16 file.superClass ++
      table (file.interfaces.map Bytes.ofUInt16) ++ table (file.fields.map StoredMember.encode) ++
      table (file.methods.map StoredMember.encode) ++
      table (file.attributes.map StoredAttribute.encode))

/-- The constants of a class file by number. -/
def StoredClass.pool (file : StoredClass) : ConstantPool :=
  .ofConstants file.constants

/-- The length of the contents of an attribute is kept in 32 bits. -/
def StoredAttribute.Fits (stored : StoredAttribute) : Prop :=
  stored.contents.length < UInt32.size

instance (stored : StoredAttribute) : Decidable stored.Fits :=
  inferInstanceAs (Decidable (_ < _))

/-- The attributes of a member can be counted. -/
def StoredMember.Fits (stored : StoredMember) : Prop :=
  TableFits StoredAttribute.Fits stored.attributes

instance (stored : StoredMember) : Decidable stored.Fits :=
  inferInstanceAs (Decidable (_ ∧ _))

/-- The places for the lengths of texts, tables and attributes and for the numbers of constants
    suffice. -/
structure StoredClass.Fits (file : StoredClass) : Prop where
  constants : ∀ constant ∈ file.constants, constant.Fits
  slots : file.constants.slotCount + 1 < UInt16.size
  interfaces : file.interfaces.length < UInt16.size
  fields : TableFits StoredMember.Fits file.fields
  methods : TableFits StoredMember.Fits file.methods
  attributes : TableFits StoredAttribute.Fits file.attributes

/-! ### What is declared -/

namespace ConstantPool

/-- The number stands for the bytes of a text. -/
def Spells (pool : ConstantPool) (index : UInt16) (text : String) : Prop :=
  pool.get? index = some (.utf8 (ModifiedUtf8.encode text))

instance (pool : ConstantPool) (index : UInt16) (text : String) :
    Decidable (pool.Spells index text) :=
  inferInstanceAs (Decidable (_ = _))

/-- The number stands for a class of this name. -/
def SpellsClass (pool : ConstantPool) (index : UInt16) (name : String) : Prop :=
  ∃ text, pool.get? index = some (.classRef text) ∧ pool.Spells text name

/-- The number stands for a superclass, and zero for none. -/
def SpellsSuper (pool : ConstantPool) (index : UInt16) : Option String → Prop
  | none => index = 0
  | some name => pool.SpellsClass index name

end ConstantPool

/-- A member is declared with its flags, under its name and descriptor. -/
structure StoredMember.Declares (pool : ConstantPool) (stored : StoredMember)
    (member : MemberBlueprint) : Prop where
  flags : stored.flags = member.flags
  name : pool.Spells stored.name member.signature.name
  descriptor : pool.Spells stored.descriptor member.signature.descriptor

/-- A nested class is declared with its flags, under its name. -/
structure StoredInner.Declares (pool : ConstantPool) (stored : StoredInner)
    (inner : InnerBlueprint) : Prop where
  flags : stored.flags = inner.flags
  name : pool.SpellsClass stored.inner inner.name

/-- An attribute for nested classes declares those that it has entries for, and any other attribute
    declares none. -/
inductive StoredAttribute.Declares (pool : ConstantPool) :
    StoredAttribute → List InnerBlueprint → Prop
  | nested {name : UInt16} {entries : List StoredInner} {inner : List InnerBlueprint}
      (spells : pool.Spells name innerClassesName) (length : entries.length < UInt16.size)
      (each : List.Forall₂ (StoredInner.Declares pool) entries inner) :
      Declares pool (.listing name entries) inner
  | other {stored : StoredAttribute} {name : String} (spells : pool.Spells stored.name name)
      (other : name ≠ innerClassesName) : Declares pool stored []

/-- The class file declares what a blueprint lists, in the same order. -/
structure StoredClass.Declares (file : StoredClass) (blueprint : Blueprint) : Prop where
  name : file.pool.SpellsClass file.thisClass blueprint.name
  superName : file.pool.SpellsSuper file.superClass blueprint.superName
  interfaces : List.Forall₂ file.pool.SpellsClass file.interfaces blueprint.interfaces
  flags : file.flags = blueprint.flags
  fields : List.Forall₂ (StoredMember.Declares file.pool) file.fields blueprint.fields
  methods : List.Forall₂ (StoredMember.Declares file.pool) file.methods blueprint.methods
  inner : ∃ lists, List.Forall₂ (StoredAttribute.Declares file.pool) file.attributes lists ∧
    lists.flatten = blueprint.inner

/-! ### Other names -/

/-- A signature with its name and its descriptor changed. -/
def Signature.respell (f : String → String) (signature : Signature) : Signature :=
  { name := f signature.name, descriptor := f signature.descriptor }

/-- A member with its name and its descriptor changed. -/
def MemberBlueprint.respell (f : String → String) (member : MemberBlueprint) : MemberBlueprint :=
  { member with signature := member.signature.respell f }

/-- A nested class with its name changed. -/
def InnerBlueprint.respell (f : String → String) (inner : InnerBlueprint) : InnerBlueprint :=
  { inner with name := f inner.name }

/-- A blueprint with all names changed. -/
def Blueprint.respell (f : String → String) (blueprint : Blueprint) : Blueprint :=
  { blueprint with
    name := f blueprint.name
    superName := blueprint.superName.map f
    interfaces := blueprint.interfaces.map f
    fields := blueprint.fields.map (·.respell f)
    methods := blueprint.methods.map (·.respell f)
    inner := blueprint.inner.map (·.respell f) }

/-! ### What the parser finds -/

section

variable {pool : ConstantPool}

open ModifiedUtf8 (readBack readBack_eq_iff)

theorem ConstantPool.Spells.text {index : UInt16} {value : String} (h : pool.Spells index value) :
    pool.text index = .ok (readBack value) := by
  rw [ConstantPool.text, show pool.get? index = _ from h]
  exact congrArg Except.ok (ModifiedUtf8.decodeLossy_encode_modified value)

theorem ConstantPool.SpellsClass.className {index : UInt16} {name : String}
    (h : pool.SpellsClass index name) : pool.className index = .ok (readBack name) := by
  rcases h with ⟨text, hclass, htext⟩
  rw [ConstantPool.className, hclass]
  exact htext.text

theorem ConstantPool.SpellsSuper.superOf {draft : PoolDraft} {index : UInt16}
    {superName : Option String} (h : (ofConstants draft).SpellsSuper index superName) :
    ClassLayout.superOf (.ofConstants draft) index = .ok (superName.map readBack) := by
  cases superName with
  | none =>
      have hindex : index = 0 := h
      rw [ClassLayout.superOf, if_pos hindex]
      rfl
  | some name => exact superOf_of_className (SpellsClass.className h)

/-- A table whose rows show what the things that they declare come back as. -/
theorem yields_storedTable {α β γ σ : Type} {reader : Reader α} {view : α → γ} {encode : σ → Bytes}
    {respell : β → γ} {stored : List σ} {declared : List β}
    (h : List.Forall₂ (fun row item => Yields reader (encode row) (view · = respell item))
      stored declared) (hlength : stored.length < UInt16.size) :
    Yields (counted reader) (table (stored.map encode)) (·.map view = declared.map respell) := by
  refine yields_counted ?_ ?_
  · rwa [List.forall₂_map_left_iff, List.forall₂_map_right_iff]
  · rwa [List.length_map]

/-- Attributes that nobody looks into. -/
theorem yields_skipAttribute {stored : StoredAttribute} (h : stored.Fits) :
    Yields skipAttribute stored.encode (fun _ => True) := by
  have hlength : (UInt32.ofNat stored.contents.length).toNat = stored.contents.length :=
    UInt32.toNat_ofNat_of_lt' h
  rw [StoredAttribute.encode, attributeOf, List.append_assoc]
  refine (yields_word16 _).bind (fun _ _ => ?_)
  refine (yields_word32 _).bind (fun length hlength' => ?_)
  rw [hlength', hlength]
  exact yields_skip stored.contents

theorem yields_storedMember {stored : StoredMember} {member : MemberBlueprint} (hfits : stored.Fits)
    (h : stored.Declares pool member) :
    Yields (MemberLayout.read pool) stored.encode (·.shown = member.respell readBack) := by
  -- What is read of an attribute says nothing, so any list of the same length will do.
  have hskip : List.Forall₂ (fun (row item : StoredAttribute) =>
      Yields skipAttribute row.encode (fun found => id found = ())) stored.attributes
        stored.attributes := by
    rw [List.forall₂_same]
    exact fun row hmem => (yields_skipAttribute (hfits.2 row hmem)).imp (fun _ _ => rfl)
  have hname : pool.text stored.name = .ok (member.respell readBack).signature.name := h.name.text
  have hdescriptor : pool.text stored.descriptor =
      .ok (member.respell readBack).signature.descriptor := h.descriptor.text
  rw [StoredMember.encode, h.flags]
  exact yields_readMember hname hdescriptor
    ((yields_storedTable hskip hfits.1).imp fun _ _ => trivial)

theorem yields_storedMembers {stored : List StoredMember} {members : List MemberBlueprint}
    (hfits : TableFits StoredMember.Fits stored)
    (h : List.Forall₂ (StoredMember.Declares pool) stored members) :
    Yields (counted (MemberLayout.read pool)) (table (stored.map StoredMember.encode))
      (·.map MemberLayout.shown = members.map (·.respell readBack)) := by
  have hboth := (List.forall₂_and_left _ _).mpr ⟨hfits.2, h⟩
  exact yields_storedTable (hboth.imp fun _ _ hrow => yields_storedMember hrow.1 hrow.2) hfits.1

theorem yields_storedInner {stored : StoredInner} {inner : InnerBlueprint}
    (h : stored.Declares pool inner) :
    Yields (InnerLayout.read pool) stored.encode (·.shown = inner.respell readBack) := by
  have hname : pool.className stored.inner = .ok (inner.respell readBack).name := h.name.className
  rw [StoredInner.encode, h.flags]
  exact yields_readInner hname stored.outer stored.simple

/-- The name of the attribute for nested classes is plain, so it is found if it is there, and what
    is found under it is no other attribute. -/
theorem yields_storedAttribute {stored : StoredAttribute} {inner : List InnerBlueprint}
    (hfits : stored.Fits) (h : stored.Declares pool inner) :
    Yields (readClassAttribute pool) stored.encode
      (·.map InnerLayout.shown = inner.map (·.respell readBack)) := by
  have hplain : ModifiedUtf8.IsPlain innerClassesName := by decide +kernel
  rw [StoredAttribute.encode]
  cases h with
  | nested spells length each =>
      have hname := spells.text
      rw [(readBack_eq_iff hplain _).mpr rfl] at hname
      refine yields_innerClasses hname ?_ ?_
      · rw [List.forall₂_map_left_iff, List.forall₂_map_right_iff]
        exact each.imp fun _ _ hentry => yields_storedInner hentry
      · rwa [List.length_map]
  | other spells other =>
      have hother := mt (readBack_eq_iff hplain _).mp other
      exact yields_otherAttribute spells.text hother hfits

theorem yields_storedAttributes {stored : List StoredAttribute} {lists : List (List InnerBlueprint)}
    (hfits : TableFits StoredAttribute.Fits stored)
    (h : List.Forall₂ (StoredAttribute.Declares pool) stored lists) :
    Yields (counted (readClassAttribute pool)) (table (stored.map StoredAttribute.encode))
      (·.flatten.map InnerLayout.shown = lists.flatten.map (·.respell readBack)) := by
  have hboth := (List.forall₂_and_left _ _).mpr ⟨hfits.2, h⟩
  have hrow : List.Forall₂ (fun (row : StoredAttribute) (inner : List InnerBlueprint) =>
      Yields (readClassAttribute pool) row.encode
        (·.map InnerLayout.shown = inner.map (·.respell readBack))) stored lists :=
    hboth.imp fun _ _ hrow => yields_storedAttribute hrow.1 hrow.2
  have hrows := yields_storedTable hrow hfits.1
  refine hrows.imp (fun found hfound => ?_)
  rw [List.map_flatten, List.map_flatten, hfound]

end

/-- The parser finds everything that a class file declares, under the names that come back. -/
theorem parse_stored {file : StoredClass} (hfits : file.Fits) {blueprint : Blueprint}
    (h : file.Declares blueprint) :
    ∃ layout, ClassLayout.parse file.encode = .ok layout ∧
      layout.Shows (blueprint.respell ModifiedUtf8.readBack) := by
  have hinterfaces : List.Forall₂ (fun index name => file.pool.className index = .ok name)
      file.interfaces (blueprint.interfaces.map ModifiedUtf8.readBack) := by
    rw [List.forall₂_map_right_iff]
    exact h.interfaces.imp fun _ _ hname => hname.className
  have hcount : (blueprint.interfaces.map ModifiedUtf8.readBack).length < UInt16.size := by
    rw [List.length_map, ← h.interfaces.length_eq]
    exact hfits.interfaces
  rcases h.inner with ⟨lists, hlists, hinner⟩
  have hattributes := yields_storedAttributes hfits.attributes hlists
  rw [hinner] at hattributes
  have hread : Yields ClassLayout.read file.encode
      (·.Shows (blueprint.respell ModifiedUtf8.readBack)) := by
    have hname : file.pool.className file.thisClass =
        .ok (blueprint.respell ModifiedUtf8.readBack).name := h.name.className
    -- The pool comes first in the file, and everything behind it is read in this pool.
    refine yields_read hfits.constants hfits.slots ?_
    rw [h.flags]
    exact yields_readBody hname h.superName.superOf
      (yields_interfaces hinterfaces hcount) (yields_storedMembers hfits.fields h.fields)
      (yields_storedMembers hfits.methods h.methods) hattributes
  rcases hread 0 with ⟨layout, htake, hshows⟩
  have hparse := ClassLayout.parse_append_of_takes htake []
  rw [List.append_nil] at hparse
  exact ⟨layout, hparse, hshows⟩

end AccessWidener
