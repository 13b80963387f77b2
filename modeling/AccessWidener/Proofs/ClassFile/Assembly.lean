import AccessWidener.Proofs.ClassFile.Numbering
import AccessWidener.Proofs.ClassFile.Refilling

/-!
# Reading an Assembled Class

An assembled class file is read back to the blueprint that it was assembled from. Both sides number
the constants on their own: the assembler hands out numbers while the pool grows and shares a name
that is there already, and the reader counts slots in the finished pool. They agree because what a
row says by numbers is said in every pool that the draft grows into (`Assembler.Builds`), and what
it says is that its reader takes exactly the bytes of the row and shows the declared thing
(`Reader.Yields`). So the theorem for a row speaks of both at once, and tables, attributes and the
class are put together from rows.

A class file has sixteen bits for the length of a text, for the length of a table and for the number
of a constant. `Blueprint.Fits` says that these suffice. Nothing is asked of the texts themselves,
which may coincide with each other and with the names of attributes. A nested class is listed with
the parts of its name around the last dollar sign, and these are shorter than the name.

## Main definitions

* `ClassLayout.Shows`: A layout shows what a blueprint lists.
* `Blueprint.Fits`: The places for lengths and numbers suffice.

## Theorems

* `yields_readMember`, `yields_readInner`: Rows are read as what their numbers stand for.
* `yields_otherAttribute`, `yields_innerClasses`: Attributes show the nested classes and nothing
  else.
* `builds_member`, `builds_inner`, `builds_sourceFile`, `builds_innerClasses`: A row that was
  assembled is read back in every later pool.
* `yields_readBody`, `yields_read`: A class file is read part by part.
* `builds_body`: Everything behind the pool is read back in every later pool.
* `read_assemble`: An assembled class file is read to its end and shows its blueprint.
-/

namespace AccessWidener

open Reader Assembler

/-- The member that was found in a class file. -/
def MemberLayout.shown (member : MemberLayout) : MemberBlueprint :=
  { signature := member.signature, flags := member.access.flags }

/-- The nested class that was found in a class file. -/
def InnerLayout.shown (inner : InnerLayout) : InnerBlueprint :=
  { name := inner.name, flags := inner.access.flags }

/-- The layout shows what the blueprint lists, in the same order. -/
structure ClassLayout.Shows (layout : ClassLayout) (blueprint : Blueprint) : Prop where
  name : layout.name = blueprint.name
  superName : layout.superName = blueprint.superName
  interfaces : layout.interfaces = blueprint.interfaces
  flags : layout.access.flags = blueprint.flags
  fields : layout.fields.map MemberLayout.shown = blueprint.fields
  methods : layout.methods.map MemberLayout.shown = blueprint.methods
  inner : layout.inner.map InnerLayout.shown = blueprint.inner

/-- A table whose rows can be counted and have room for their texts. -/
def TableFits {α : Type} (fits : α → Prop) (rows : List α) : Prop :=
  rows.length < UInt16.size ∧ ∀ row ∈ rows, fits row

/-! ### Members -/

/-- The signature of a member has room in a class file. -/
def MemberBlueprint.Fits (member : MemberBlueprint) : Prop :=
  TextFits member.signature.name ∧ TextFits member.signature.descriptor

instance (member : MemberBlueprint) : Decidable member.Fits :=
  inferInstanceAs (Decidable (_ ∧ _))

theorem yields_readText {pool : ConstantPool} {index : UInt16} {value : String}
    (h : pool.text index = .ok value) :
    Yields pool.readText (Bytes.ofUInt16 index) (· = value) := by
  refine (yields_word16 index).bind_nil (fun number hnumber => ?_)
  rw [hnumber]
  exact yields_lift h

theorem yields_readClassName {pool : ConstantPool} {index : UInt16} {name : String}
    (h : pool.className index = .ok name) :
    Yields pool.readClassName (Bytes.ofUInt16 index) (· = name) := by
  refine (yields_word16 index).bind_nil (fun number hnumber => ?_)
  rw [hnumber]
  exact yields_lift h

/-- The flags, the numbers of the texts and a table of attributes are read as a member. -/
theorem yields_readMember {pool : ConstantPool} {member : MemberBlueprint}
    {name descriptor : UInt16} {attributes : Bytes}
    (hname : pool.text name = .ok member.signature.name)
    (hdescriptor : pool.text descriptor = .ok member.signature.descriptor)
    (hattributes : Yields (counted skipAttribute) attributes (fun _ => True)) :
    Yields (MemberLayout.read pool)
      (Bytes.ofUInt16 member.flags ++ Bytes.ofUInt16 name ++ Bytes.ofUInt16 descriptor ++
        attributes) (·.shown = member) := by
  simp only [List.append_assoc]
  refine (yields_readSite member.flags).bind (fun access haccess => ?_)
  refine (yields_readText hname).bind (fun name' hname' => ?_)
  refine (yields_readText hdescriptor).bind (fun descriptor' hdescriptor' => ?_)
  -- The attributes are skipped, so the member shows its flags and its two texts only.
  refine hattributes.bind_nil (fun _ _ => yields_pure ?_)
  rw [MemberLayout.shown, haccess, hname', hdescriptor']

/-- A member is read back in every later pool. -/
theorem builds_member {member : MemberBlueprint} (h : member.Fits) :
    Builds member.assemble
      (fun pool row => Yields (MemberLayout.read pool) row (·.shown = member)) := by
  refine (builds_text h.1).bind (fun name => ?_)
  refine (builds_text h.2).bind (fun descriptor => ?_)
  refine builds_pure (fun constants hdescriptor hname => ?_)
  -- The table of the member's own attributes is empty.
  have hrows : List.Forall₂ (fun row (item : Unit) => Yields skipAttribute row (· = item)) [] [] :=
    .nil
  have hempty := yields_counted hrows (by decide)
  exact yields_readMember hname hdescriptor (hempty.imp fun _ _ => trivial)

/-! ### Nested classes -/

/-- A nested name is its two parts with a dollar sign between them. -/
theorem toList_of_splitNested? {name outer simple : String}
    (h : splitNested? name = some (outer, simple)) :
    name.toList = outer.toList ++ '$' :: simple.toList := by
  have hhead := List.head?_dropWhile_not (fun c : Char => decide (c ≠ '$')) name.toList.reverse
  have hparts : name.toList.reverse.takeWhile (· ≠ '$') ++ name.toList.reverse.dropWhile (· ≠ '$') =
      name.toList.reverse := List.takeWhile_append_dropWhile
  unfold splitNested? at h
  split at h
  · cases h
  · next c outer' hdrop =>
    rw [hdrop] at hhead hparts
    simp only [Option.some.injEq, Prod.mk.injEq] at h
    rcases h with ⟨rfl, rfl⟩
    -- The scan from the end stopped at a dollar sign, and turning it round splits the name there.
    have hc : c = '$' := by simpa using hhead
    have hname := congrArg List.reverse hparts
    rw [List.reverse_reverse, hc, List.reverse_append, List.reverse_cons, List.append_assoc,
      List.singleton_append] at hname
    rw [String.toList_ofList, String.toList_ofList]
    exact hname.symm

/-- The parts of a nested name are no longer than the name. -/
theorem textFits_of_splitNested? {name outer simple : String}
    (h : splitNested? name = some (outer, simple)) (hfits : TextFits name) :
    TextFits outer ∧ TextFits simple := by
  have hlength : (Utf8.encodeString name).length = (Utf8.encodeString outer).length +
      ((String.utf8EncodeChar '$').length + (Utf8.encodeString simple).length) := by
    simp only [Utf8.encodeString, Utf8.encode, toList_of_splitNested? h, List.flatMap_append,
      List.flatMap_cons, List.length_append]
  unfold TextFits at hfits ⊢
  omega

/-- The numbers of the parts of a nested name are not looked at when the class is read. -/
theorem builds_enclosing {name : String} (h : TextFits name) :
    Builds (assembleEnclosing name) (fun _ _ => True) := by
  unfold assembleEnclosing
  split
  · exact builds_pure (fun _ => trivial)
  · next outer simple hsplit =>
    rcases textFits_of_splitNested? hsplit h with ⟨houter, hsimple⟩
    refine (builds_className houter).bind (fun outerIndex => ?_)
    refine (builds_text hsimple).bind (fun simpleIndex => ?_)
    exact builds_pure (fun _ _ _ => trivial)

/-- The numbers of the classes and of the simple name and the flags are read as an entry. -/
theorem yields_readInner {pool : ConstantPool} {inner : InnerBlueprint} {index : UInt16}
    (h : pool.className index = .ok inner.name) (outer simple : UInt16) :
    Yields (InnerLayout.read pool)
      (Bytes.ofUInt16 index ++ Bytes.ofUInt16 outer ++ Bytes.ofUInt16 simple ++
        Bytes.ofUInt16 inner.flags) (·.shown = inner) := by
  simp only [List.append_assoc]
  refine (yields_word16 index).bind (fun index' hindex => ?_)
  refine (yields_word16 outer).bind (fun _ _ => ?_)
  refine (yields_word16 simple).bind (fun _ _ => ?_)
  refine (yields_readSite inner.flags).bind_nil (fun access haccess => ?_)
  rw [hindex]
  refine (yields_lift h).bind_nil (fun name' hname' => yields_pure ?_)
  rw [InnerLayout.shown, haccess, hname']

/-- An entry for a nested class is read back in every later pool. -/
theorem builds_inner {inner : InnerBlueprint} (h : TextFits inner.name) :
    Builds inner.assemble
      (fun pool row => Yields (InnerLayout.read pool) row (·.shown = inner)) := by
  refine (builds_className h).bind (fun index => ?_)
  refine (builds_enclosing h).bind (fun enclosing => ?_)
  exact builds_pure (fun constants _ hname => yields_readInner hname enclosing.1 enclosing.2)

/-! ### Attributes -/

/-- An attribute of another name is passed over by its length. -/
theorem yields_otherAttribute {pool : ConstantPool} {name : UInt16} {value : String}
    (hname : pool.text name = .ok value) (hother : value ≠ innerClassesName) {contents : Bytes}
    (hlength : contents.length < UInt32.size) :
    Yields (readClassAttribute pool) (attributeOf name contents)
      (·.map InnerLayout.shown = []) := by
  have hcontents : (UInt32.ofNat contents.length).toNat = contents.length :=
    UInt32.toNat_ofNat_of_lt' hlength
  rw [attributeOf, List.append_assoc]
  refine (yields_readText hname).bind (fun name' hname' => ?_)
  refine (yields_word32 _).bind (fun length hlength' => ?_)
  -- The name is not the one looked for: as many bytes are skipped as were announced.
  rw [hname', hlength', if_neg hother, hcontents]
  exact (yields_skip contents).bind_nil (fun _ _ => yields_pure rfl)

/-- The attribute for nested classes is read by the count of its entries, so its length is not
    needed. -/
theorem yields_innerClasses {pool : ConstantPool} {name : UInt16}
    (hname : pool.text name = .ok innerClassesName) {rows : List Bytes}
    {inner : List InnerBlueprint}
    (hrows : List.Forall₂ (fun row entry => Yields (InnerLayout.read pool) row (·.shown = entry))
      rows inner) (hlength : rows.length < UInt16.size) :
    Yields (readClassAttribute pool) (attributeOf name (table rows))
      (·.map InnerLayout.shown = inner) := by
  rw [attributeOf, List.append_assoc]
  refine (yields_readText hname).bind (fun name' hname' => ?_)
  refine (yields_word32 _).bind (fun _ _ => ?_)
  -- The announced length is not consulted here, the count of rows is.
  rw [hname', if_pos rfl]
  exact yields_counted hrows hlength

/-- At most one attribute, which is read as entries for these nested classes. -/
def Lists (pool : ConstantPool) (rows : List Bytes) (inner : List InnerBlueprint) : Prop :=
  rows.length ≤ 1 ∧ ∃ lists, List.Forall₂ (fun row shown =>
    Yields (readClassAttribute pool) row (·.map InnerLayout.shown = shown)) rows lists ∧
      lists.flatten = inner

theorem lists_nil (pool : ConstantPool) : Lists pool [] [] :=
  ⟨Nat.zero_le 1, [], .nil, rfl⟩

theorem lists_singleton {pool : ConstantPool} {row : Bytes} {inner : List InnerBlueprint}
    (h : Yields (readClassAttribute pool) row (·.map InnerLayout.shown = inner)) :
    Lists pool [row] inner :=
  ⟨Nat.le_refl 1, [inner], .cons h .nil, by rw [List.flatten_cons, List.flatten_nil,
    List.append_nil]⟩

/-- An attribute that names the source file is passed over. -/
theorem builds_sourceFile {source : Option String} (h : ∀ value ∈ source, TextFits value) :
    Builds (Blueprint.assembleSourceFile source) (fun pool rows => Lists pool rows []) := by
  cases source with
  | none => exact builds_pure (fun _ => lists_nil _)
  | some value =>
      have hattribute : TextFits "SourceFile" := by decide
      refine (builds_text hattribute).bind (fun name => ?_)
      refine (builds_text (h value rfl)).bind (fun index => ?_)
      refine builds_pure (fun constants _ hname => lists_singleton ?_)
      have hlength : 2 < UInt32.size := by decide
      exact yields_otherAttribute hname (by decide) hlength

/-- The attribute for nested classes lists them in order, and without nested classes there is
    none. -/
theorem builds_innerClasses {inner : List InnerBlueprint}
    (h : TableFits (fun entry => TextFits entry.name) inner) :
    Builds (Blueprint.assembleInner inner) (fun pool rows => Lists pool rows inner) := by
  cases inner with
  | nil => exact builds_pure (fun _ => lists_nil _)
  | cons entry others =>
      have hattribute : TextFits innerClassesName := by decide
      refine (builds_text hattribute).bind (fun name => ?_)
      refine (builds_mapM (fun entry hmem => builds_inner (h.2 entry hmem))).bind (fun rows => ?_)
      refine builds_pure (fun constants hrows hname => lists_singleton ?_)
      refine yields_innerClasses hname hrows ?_
      rw [hrows.length_eq]
      exact h.1

/-- Attributes behind each other. -/
theorem yields_attributes {pool : ConstantPool} {first second : List Bytes}
    {inner inner' : List InnerBlueprint} (h : Lists pool first inner)
    (h' : Lists pool second inner') :
    Yields (counted (readClassAttribute pool)) (table (first ++ second))
      (·.flatten.map InnerLayout.shown = inner ++ inner') := by
  rcases h with ⟨hlength, lists, hrows, rfl⟩
  rcases h' with ⟨hlength', lists', hrows', rfl⟩
  have hboth := List.rel_append hrows hrows'
  -- Either list holds at most one attribute, so the count of both fits two bytes.
  have htable : (first ++ second).length < UInt16.size := by
    rw [List.length_append]
    exact Nat.lt_of_le_of_lt (Nat.add_le_add hlength hlength') (by decide)
  refine (yields_counted hboth htable).imp (fun found hfound => ?_)
  rw [List.map_flatten, hfound, List.flatten_append]

/-! ### The class -/

namespace Blueprint

/-- The constants of the class file. -/
def constants (blueprint : Blueprint) : PoolDraft :=
  (assembleBody blueprint []).2

/-- A class file has room for the length of every text, for the number of rows in every table and
    for the number of every constant. -/
structure Fits (blueprint : Blueprint) : Prop where
  name : TextFits blueprint.name
  superName : ∀ name ∈ blueprint.superName, TextFits name
  interfaces : TableFits TextFits blueprint.interfaces
  fields : TableFits MemberBlueprint.Fits blueprint.fields
  methods : TableFits MemberBlueprint.Fits blueprint.methods
  inner : TableFits (fun entry => TextFits entry.name) blueprint.inner
  sourceFile : ∀ value ∈ blueprint.sourceFile, TextFits value
  slots : blueprint.constants.slotCount + 1 < UInt16.size

end Blueprint

/-- A number that stands for a class is not zero, so it is looked up for the superclass. -/
theorem superOf_of_className {draft : PoolDraft} {index : UInt16} {name : String}
    (h : (ConstantPool.ofConstants draft).className index = .ok name) :
    ClassLayout.superOf (.ofConstants draft) index = .ok (some name) := by
  have hindex : index ≠ 0 := by
    rintro rfl
    rw [ConstantPool.className_zero] at h
    cases h
  rw [ClassLayout.superOf, if_neg hindex, h]
  rfl

/-- The number given for the superclass stands for it, and number zero for none. -/
theorem builds_super {superName : Option String} (h : ∀ name ∈ superName, TextFits name) :
    Builds (Blueprint.assembleSuper superName)
      (fun pool number => ClassLayout.superOf pool number = .ok superName) := by
  cases superName with
  | none => exact builds_pure (fun _ => rfl)
  | some name =>
      exact (builds_className (h name rfl)).imp
        (fun constants number hname => superOf_of_className hname)

/-- Numbers that stand for names are read as these names. -/
theorem yields_interfaces {pool : ConstantPool} {indices : List UInt16} {names : List String}
    (h : List.Forall₂ (fun index name => pool.className index = .ok name) indices names)
    (hlength : names.length < UInt16.size) :
    Yields (counted pool.readClassName) (table (indices.map Bytes.ofUInt16)) (· = names) := by
  have hrows : List.Forall₂ (fun row name => Yields pool.readClassName row (id · = name))
      (indices.map Bytes.ofUInt16) names := by
    rw [List.forall₂_map_left_iff]
    exact h.imp (fun _ _ hname => yields_readClassName hname)
  have hcount : (indices.map Bytes.ofUInt16).length < UInt16.size := by
    rw [List.length_map, h.length_eq]
    exact hlength
  refine (yields_counted hrows hcount).imp (fun found hfound => ?_)
  rwa [List.map_id] at hfound

namespace ClassLayout

/-- Everything behind the constant pool. -/
def readBody (pool : ConstantPool) : Reader ClassLayout := do
  let access ← FlagSite.read
  let thisClass ← word16
  let superClass ← word16
  let interfaces ← counted pool.readClassName
  let fields ← counted (MemberLayout.read pool)
  let methods ← counted (MemberLayout.read pool)
  let attributes ← counted (readClassAttribute pool)
  let superName ← superOf pool superClass
  let name ← pool.className thisClass
  return { name, superName, interfaces, access, fields, methods, inner := attributes.flatten }

theorem read_eq_front : read = readFront >>= readBody := by
  simp only [read, readFront, bind_assoc]
  rfl

end ClassLayout

/-- Numbers that stand for the names of a class, and rows that are read as its members, make up a
    body that shows the class. -/
theorem yields_readBody {pool : ConstantPool} {blueprint : Blueprint}
    {thisClass superClass : UInt16} {interfaces : List UInt16}
    {fields methods attributes : List Bytes}
    (hthis : pool.className thisClass = .ok blueprint.name)
    (hsuper : ClassLayout.superOf pool superClass = .ok blueprint.superName)
    (hinterfaces : Yields (counted pool.readClassName) (table (interfaces.map Bytes.ofUInt16))
      (· = blueprint.interfaces))
    (hfields : Yields (counted (MemberLayout.read pool)) (table fields)
      (·.map MemberLayout.shown = blueprint.fields))
    (hmethods : Yields (counted (MemberLayout.read pool)) (table methods)
      (·.map MemberLayout.shown = blueprint.methods))
    (hattributes : Yields (counted (readClassAttribute pool)) (table attributes)
      (·.flatten.map InnerLayout.shown = blueprint.inner)) :
    Yields (ClassLayout.readBody pool)
      (Bytes.ofUInt16 blueprint.flags ++ Bytes.ofUInt16 thisClass ++ Bytes.ofUInt16 superClass ++
        table (interfaces.map Bytes.ofUInt16) ++ table fields ++ table methods ++ table attributes)
      (·.Shows blueprint) := by
  simp only [List.append_assoc]
  refine (yields_readSite blueprint.flags).bind (fun access haccess => ?_)
  refine (yields_word16 thisClass).bind (fun thisClass' hthis' => ?_)
  refine (yields_word16 superClass).bind (fun superClass' hsuper' => ?_)
  refine hinterfaces.bind (fun interfaces' hinterfaces' => ?_)
  refine hfields.bind (fun fields' hfields' => ?_)
  refine hmethods.bind (fun methods' hmethods' => ?_)
  refine hattributes.bind_nil (fun attributes' hattributes' => ?_)
  -- Names are looked up in the pool once all tables are read, the superclass first.
  rw [hthis', hsuper']
  refine (yields_lift hsuper).bind_nil (fun superName hsuperName => ?_)
  refine (yields_lift hthis).bind_nil (fun name hname => yields_pure ?_)
  exact ⟨hname, hsuperName, hinterfaces', haccess, hfields', hmethods', hattributes'⟩

/-- Everything behind the pool is read back in every later pool. -/
theorem builds_body {blueprint : Blueprint} (h : blueprint.Fits) :
    Builds blueprint.assembleBody
      (fun pool body => Yields (ClassLayout.readBody pool) body (·.Shows blueprint)) := by
  have hlong : ∀ value ∈ blueprint.longs, Builds (append (.long value)) (fun _ _ => True) := by
    intro value _
    have hfits : (Constant.long value).Fits := trivial
    exact (builds_append hfits).imp (fun _ _ _ => trivial)
  have hmember : ∀ members : List MemberBlueprint, TableFits MemberBlueprint.Fits members →
      Builds (members.mapM MemberBlueprint.assemble) (fun pool rows =>
        Yields (counted (MemberLayout.read pool)) (table rows)
          (·.map MemberLayout.shown = members)) := by
    intro members hmembers
    refine (builds_mapM fun member hmem => builds_member (hmembers.2 member hmem)).imp
      (fun constants rows hrows => yields_counted hrows ?_)
    rw [hrows.length_eq]
    exact hmembers.1
  refine (builds_mapM hlong).bind (fun _ => ?_)
  refine (builds_className h.name).bind (fun thisClass => ?_)
  refine (builds_super h.superName).bind (fun superClass => ?_)
  refine (builds_mapM fun name hmem => builds_className (h.interfaces.2 name hmem)).bind
    (fun interfaces => ?_)
  refine (hmember _ h.fields).bind (fun fields => ?_)
  refine (hmember _ h.methods).bind (fun methods => ?_)
  refine (builds_sourceFile h.sourceFile).bind (fun sourceFile => ?_)
  refine (builds_innerClasses h.inner).bind (fun inner => ?_)
  -- The pool is known now, and the facts of all steps hold in it.
  refine builds_pure
    (fun constants hinner hsource hmethods hfields hinterfaces hsuper hthis _ => ?_)
  exact yields_readBody hthis hsuper (yields_interfaces hinterfaces h.interfaces.1) hfields hmethods
    (yields_attributes hsource hinner)

/-- The front of a class file of any version is read as the pool of its constants. -/
theorem yields_readFront {minor major : UInt16} {draft : PoolDraft}
    (h : ∀ constant ∈ draft, constant.Fits) (hslots : draft.slotCount + 1 < UInt16.size) :
    Yields ClassLayout.readFront
      (Bytes.ofUInt32 ClassLayout.magic ++ Bytes.ofUInt16 minor ++ Bytes.ofUInt16 major ++
        Blueprint.assemblePool draft) (· = .ofConstants draft) := by
  simp only [List.append_assoc]
  have hmagic : Yields ClassLayout.readMagic (Bytes.ofUInt32 ClassLayout.magic)
      (fun _ => True) := by
    refine (yields_word32 _).bind_nil (fun found hfound => ?_)
    rw [if_pos hfound]
    exact yields_pure trivial
  refine hmagic.bind (fun _ _ => ?_)
  refine (yields_word16 minor).bind (fun _ _ => ?_)
  refine (yields_word16 major).bind (fun _ _ => ?_)
  exact yields_readPool h hslots

/-- A class file is read from its front and a body that is read in the pool of the front. -/
theorem yields_read {minor major : UInt16} {draft : PoolDraft} {body : Bytes}
    {P : ClassLayout → Prop} (h : ∀ constant ∈ draft, constant.Fits)
    (hslots : draft.slotCount + 1 < UInt16.size)
    (hbody : Yields (ClassLayout.readBody (.ofConstants draft)) body P) :
    Yields ClassLayout.read
      (Bytes.ofUInt32 ClassLayout.magic ++ Bytes.ofUInt16 minor ++ Bytes.ofUInt16 major ++
        Blueprint.assemblePool draft ++ body) P := by
  rw [ClassLayout.read_eq_front]
  refine (yields_readFront h hslots).bind (fun pool hpool => ?_)
  rw [hpool]
  exact hbody

theorem ClassLayout.parse_append_of_takes {taken : Bytes} {layout : ClassLayout}
    (h : Takes ClassLayout.read 0 taken layout) (rest : Bytes) :
    ClassLayout.parse (taken ++ rest) = .ok layout := by
  rw [ClassLayout.parse, runOn, Cursor.start, h rest]

/-- An assembled class file is read to its end and shows its blueprint. -/
theorem read_assemble (blueprint : Blueprint) (h : blueprint.Fits) :
    ∃ layout, ClassLayout.read (.start blueprint.assemble) =
        .ok (layout, { offset := blueprint.assemble.length, rest := [] }) ∧
      ClassLayout.parse blueprint.assemble = .ok layout ∧ layout.Shows blueprint := by
  rcases builds_body h [] with ⟨body, draft, hbody, hfits, hyields⟩
  rw [List.nil_append] at hbody hyields
  -- The bound on the slots is the one place where the finished pool is looked at.
  have hslots : draft.slotCount + 1 < UInt16.size := by
    have hslots := h.slots
    rwa [Blueprint.constants, hbody] at hslots
  -- The pool is read back first, and the body is then read in exactly that pool.
  have hread : Yields ClassLayout.read blueprint.assemble (·.Shows blueprint) := by
    rw [ClassLayout.read_eq_front, Blueprint.assemble, hbody]
    refine (yields_readFront hfits hslots).bind (fun pool hpool => ?_)
    rw [hpool]
    have hlast := hyields []
    rw [List.append_nil] at hlast
    exact hlast hslots
  rcases hread 0 with ⟨layout, htake, hshows⟩
  have hrun := htake []
  rw [List.append_nil, Nat.zero_add] at hrun
  refine ⟨layout, hrun, ?_, hshows⟩
  rw [ClassLayout.parse, runOn, Cursor.start, hrun]

/-- A class that is nested in its superclass and whose members are called like attributes, behind
    two long constants. -/
def sharedNames : Blueprint where
  name := "a/B$C"
  flags := 0x21
  superName := some "a/B"
  interfaces := ["InnerClasses", "a/B"]
  fields := [{ signature := { name := "C", descriptor := "J" }, flags := 2 }]
  methods := [{ signature := { name := "SourceFile", descriptor := "()V" }, flags := 9 }]
  inner := [{ name := "a/B$C", flags := 8 }, { name := "a/D", flags := 1 }]
  longs := [7, 7]
  sourceFile := some "a/B"

/-- Names that are shared, also with attributes and with parts of a nested name, are read back. -/
theorem read_assemble_sharedNames : sharedNames.Fits ∧
    ∃ layout, ClassLayout.read (.start sharedNames.assemble) =
        .ok (layout, { offset := sharedNames.assemble.length, rest := [] }) ∧
      ClassLayout.parse sharedNames.assemble = .ok layout ∧ layout.Shows sharedNames := by
  have hfits : sharedNames.Fits :=
    { name := by decide
      superName := by decide
      interfaces := ⟨by decide, by decide⟩
      fields := ⟨by decide, by decide⟩
      methods := ⟨by decide, by decide⟩
      inner := ⟨by decide, by decide⟩
      sourceFile := by decide
      slots := by decide +kernel }
  exact ⟨hfits, read_assemble sharedNames hfits⟩

end AccessWidener
