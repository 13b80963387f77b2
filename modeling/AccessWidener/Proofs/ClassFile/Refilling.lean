import AccessWidener.Proofs.ClassFile.Form
import AccessWidener.Proofs.ClassFile.Taking

/-!
# Reading Forms

What a reader takes off a class file is a form: its blanks are the flag words that the reader notes
down, and filling them in anew changes nothing in what the reader gives but the flags noted. This
holds because no reader looks at a flag word for anything but its value. It is the reason why a
class file can be patched in place and parsed again.

The statement is made once for each reader and travels with the reader's result. A `Carrier` says
which flag sites a result carries and what refilling does to it. Readers that carry none satisfy
the statement for want of blanks (`readsForm_plain`), reading a flag word satisfies it by having
one, and the rest follows from two rules: one reader behind another, and a result put together from
what was read. Every reader below is first shown to be of that shape.

## Main definitions

* `Carrier`: The flag sites in a result, and the result with other flags.
* `ReadsForm`: A reader takes a form, and follows when the form is refilled.
* `ClassLayout.refill`: A layout with other flags at the same places.

## Theorems

* `readsForm_both`, `readsForm_map`, `readsForm_times`: The statement passes through sequencing.
* `parse_form`: A class file that parses is a form, and each refilling of it parses to the layout
  with other flags.
-/

namespace AccessWidener

open Reader

variable {α β : Type}

/-- The flag sites that a value carries, and the value with other flags at the same places. -/
structure Carrier (α : Type) where
  sites : α → List FlagSite
  refill : Rule → α → α

/-- A member with other flags at the same place. -/
def MemberLayout.refill (rule : Rule) (member : MemberLayout) : MemberLayout :=
  { member with access := member.access.refill rule }

/-- An entry for a nested class with other flags at the same place. -/
def InnerLayout.refill (rule : Rule) (inner : InnerLayout) : InnerLayout :=
  { inner with access := inner.access.refill rule }

/-- A layout with other flags at the same places. -/
def ClassLayout.refill (rule : Rule) (layout : ClassLayout) : ClassLayout :=
  { layout with
    access := layout.access.refill rule
    fields := layout.fields.map (MemberLayout.refill rule)
    methods := layout.methods.map (MemberLayout.refill rule)
    inner := layout.inner.map (InnerLayout.refill rule) }

namespace Carrier

/-- A value without flag sites. -/
def plain : Carrier α where
  sites _ := []
  refill _ a := a

/-- A flag site. -/
def site : Carrier FlagSite where
  sites s := [s]
  refill := FlagSite.refill

/-- Two values, the sites of the first one in front. -/
def both (first : Carrier α) (second : Carrier β) : Carrier (α × β) where
  sites pair := first.sites pair.1 ++ second.sites pair.2
  refill rule pair := (first.refill rule pair.1, second.refill rule pair.2)

/-- A list of values. -/
def list (item : Carrier α) : Carrier (List α) where
  sites items := items.flatMap item.sites
  refill rule items := items.map (item.refill rule)

/-- A field or method. -/
def member : Carrier MemberLayout where
  sites m := [m.access]
  refill := MemberLayout.refill

/-- An entry for a nested class. -/
def inner : Carrier InnerLayout where
  sites i := [i.access]
  refill := InnerLayout.refill

/-- A class file. -/
def layout : Carrier ClassLayout where
  sites := ClassLayout.sites
  refill := ClassLayout.refill

end Carrier

/-- What the reader takes is a form with the sites of its result as blanks, and with the blanks
    filled in anew the reader gives its result with other flags. -/
def ReadsForm (carrier : Carrier α) (reader : Reader α) : Prop :=
  ∀ offset bytes a, Takes reader offset bytes a →
    ∃ form, Form.bytes form = bytes ∧ Form.sites offset form = carrier.sites a ∧
      ∀ rule,
        Takes reader offset (Form.bytes (Form.refill rule offset form)) (carrier.refill rule a)

/-- One reader behind another, with the results of both. -/
def Reader.both (first : Reader α) (second : α → Reader β) : Reader (α × β) := do
  let a ← first
  let b ← second a
  return (a, b)

theorem local_both {first : Reader α} {second : α → Reader β} (hf : Local first)
    (hs : ∀ a, Local (second a)) : Local (both first second) :=
  local_bind hf (fun a => local_bind (hs a) (fun b => local_pure (a, b)))

/-! ### Rules -/

/-- A result without flag sites has no blanks to be filled in. -/
theorem readsForm_plain (reader : Reader α) : ReadsForm Carrier.plain reader := by
  intro offset bytes a h
  refine ⟨[.printed bytes], ?_, rfl, fun rule => ?_⟩
  · rw [Form.bytes_printed, Form.bytes_nil, List.append_nil]
  · simp only [Form.refill, Form.bytes_printed, Form.bytes_nil, List.append_nil]
    exact h

theorem takes_readSite_iff (offset : Nat) (bytes : Bytes) (site : FlagSite) :
    Takes FlagSite.read offset bytes site ↔
      bytes = Bytes.ofUInt16 site.flags ∧ site.offset = offset := by
  have hrun : FlagSite.read =
      Reader.offset >>= fun start => (FlagSite.mk start) <$> word16 := by
    simp only [FlagSite.read, map_eq_pure_bind]
  rw [hrun, takes_bind_iff local_offset (fun _ => local_map _ local_word16)]
  constructor
  · rintro ⟨first, second, start, rfl, hstart, htake⟩
    rw [takes_map_iff _ local_word16] at htake
    rcases htake with ⟨flags, hflags, rfl⟩
    -- Noting the offset takes nothing, so both bytes belong to the word.
    have hstart := hstart []
    simp only [Reader.offset, Except.ok.injEq, Prod.mk.injEq, Cursor.mk.injEq,
      List.append_eq_nil_iff, and_true] at hstart
    rw [takes_word16_iff] at hflags
    rcases hstart with ⟨rfl, -, rfl⟩
    exact ⟨hflags, rfl⟩
  · rintro ⟨rfl, rfl⟩
    refine ⟨[], _, site.offset, rfl, fun rest => rfl, ?_⟩
    rw [takes_map_iff _ local_word16]
    exact ⟨site.flags, (takes_word16_iff _ _ _).mpr rfl, rfl⟩

theorem readsForm_site : ReadsForm Carrier.site FlagSite.read := by
  intro offset bytes site h
  rw [takes_readSite_iff] at h
  rcases h with ⟨rfl, rfl⟩
  refine ⟨[.blank site.flags], ?_, rfl, fun rule => ?_⟩
  · rw [Form.bytes_blank, Form.bytes_nil, List.append_nil]
  · rw [takes_readSite_iff]
    simp only [Form.refill, Form.bytes_blank, Form.bytes_nil, List.append_nil, Carrier.site,
      FlagSite.refill, and_self]

/-- One form behind another is a form. What the second reader does may depend on the first result,
    but not on flags in it. -/
theorem readsForm_both {first : Reader α} {second : α → Reader β} {carrier : Carrier α}
    {carrier' : Carrier β} (hl : Local first) (hl' : ∀ a, Local (second a))
    (hf : ReadsForm carrier first) (hs : ∀ a, ReadsForm carrier' (second a))
    (hblind : ∀ rule a, second (carrier.refill rule a) = second a) :
    ReadsForm (carrier.both carrier') (both first second) := by
  intro offset bytes pair h
  rw [both, takes_bind_iff hl (fun a => local_bind (hl' a) (fun _ => local_pure _))] at h
  rcases h with ⟨front, back, a, rfl, htake, hrest⟩
  rw [← map_eq_pure_bind, takes_map_iff _ (hl' a)] at hrest
  rcases hrest with ⟨b, htake', rfl⟩
  -- The second form starts where the first one ends, refilled or not.
  rcases hf _ _ _ htake with ⟨form, rfl, hsites, hrefill⟩
  rcases hs a _ _ _ htake' with ⟨form', rfl, hsites', hrefill'⟩
  refine ⟨form ++ form', Form.bytes_append form form', ?_, fun rule => ?_⟩
  · rw [Form.sites_append, hsites, hsites']
    rfl
  · rw [Form.refill_append, Form.bytes_append]
    refine (hrefill rule).bind ?_
    rw [hblind, ← map_eq_pure_bind, takes_map_iff _ (hl' a), Form.length_bytes_refill]
    exact ⟨_, hrefill' rule, rfl⟩

/-- A result put together from what was read carries the same sites. -/
theorem readsForm_map {reader : Reader α} {f : α → β} (carrier : Carrier α) {carrier' : Carrier β}
    (hl : Local reader) (hr : ReadsForm carrier reader)
    (hsites : ∀ a, carrier'.sites (f a) = carrier.sites a)
    (hrefill : ∀ rule a, carrier'.refill rule (f a) = f (carrier.refill rule a)) :
    ReadsForm carrier' (f <$> reader) := by
  intro offset bytes b h
  rw [takes_map_iff f hl] at h
  rcases h with ⟨a, htake, rfl⟩
  rcases hr _ _ _ htake with ⟨form, hbytes, hform, hrule⟩
  refine ⟨form, hbytes, ?_, fun rule => ?_⟩
  · rw [hform, hsites]
  · rw [takes_map_iff f hl, hrefill]
    exact ⟨_, hrule rule, rfl⟩

theorem readsForm_times {reader : Reader α} {carrier : Carrier α} (hl : Local reader)
    (hr : ReadsForm carrier reader) (n : Nat) : ReadsForm carrier.list (times reader n) := by
  induction n with
  | zero =>
      intro offset bytes items h
      have hrun := h []
      simp only [times, pure_apply, List.append_nil, Except.ok.injEq, Prod.mk.injEq,
        Cursor.mk.injEq] at hrun
      rcases hrun with ⟨rfl, -, rfl⟩
      exact ⟨[], rfl, rfl, fun rule => takes_pure offset []⟩
  | succ n ih =>
      -- One more reading is a reading in front of the others.
      have hrun : times reader (n + 1)
          = (fun pair => pair.1 :: pair.2) <$> both reader (fun _ => times reader n) := by
        simp only [times, both, map_eq_pure_bind, bind_assoc, pure_bind]
      rw [hrun]
      refine readsForm_map _ (local_both hl (fun _ => local_times hl n))
        (readsForm_both hl (fun _ => local_times hl n) hr (fun _ => ih) (fun _ _ => rfl))
        (fun pair => ?_) (fun rule pair => rfl)
      simp only [Carrier.list, Carrier.both, List.flatMap_cons]

theorem readsForm_counted {reader : Reader α} {carrier : Carrier α} (hl : Local reader)
    (hr : ReadsForm carrier reader) : ReadsForm carrier.list (counted reader) := by
  -- The count is read first and carries no flags.
  have hrun : counted reader
      = Prod.snd <$> both word16 (fun count => times reader count.toNat) := by
    simp only [counted, both, map_eq_pure_bind, bind_assoc, pure_bind, bind_pure]
  rw [hrun]
  exact readsForm_map _ (local_both local_word16 (fun count => local_times hl count.toNat))
    (readsForm_both local_word16 (fun count => local_times hl count.toNat)
      (readsForm_plain word16) (fun count => readsForm_times hl hr count.toNat) (fun _ _ => rfl))
    (fun pair => rfl) (fun rule pair => rfl)

/-! ### The parts of a class file -/

/-- What follows the flag word of a field or method. -/
def MemberLayout.readSignature (pool : ConstantPool) : Reader Signature := do
  let name ← pool.readText
  let descriptor ← pool.readText
  let _ ← counted skipAttribute
  return { name, descriptor }

/-- What precedes the flag word of an entry for a nested class. -/
def InnerLayout.readIndices : Reader UInt16 := do
  let inner ← word16
  let _ ← word16
  let _ ← word16
  return inner

/-- What precedes the contents of an attribute. -/
def readAttributeHead (pool : ConstantPool) : Reader (String × UInt32) := do
  let name ← pool.readText
  let length ← word32
  return (name, length)

theorem local_readSignature (pool : ConstantPool) : Local (MemberLayout.readSignature pool) :=
  local_bind (local_readText pool) (fun _ => local_bind (local_readText pool)
    (fun _ => local_bind (local_counted local_skipAttribute) (fun _ => local_pure _)))

theorem local_readIndices : Local InnerLayout.readIndices :=
  local_bind local_word16 (fun _ => local_bind local_word16
    (fun _ => local_bind local_word16 (fun _ => local_pure _)))

theorem local_readAttributeHead (pool : ConstantPool) : Local (readAttributeHead pool) :=
  local_bind (local_readText pool) (fun _ => local_bind local_word32 (fun _ => local_pure _))

theorem readMember_eq (pool : ConstantPool) : MemberLayout.read pool =
    (fun pair => { signature := pair.2, access := pair.1 }) <$>
      both FlagSite.read (fun _ => MemberLayout.readSignature pool) := by
  simp only [MemberLayout.read, MemberLayout.readSignature, both, map_eq_pure_bind, bind_assoc,
    pure_bind]

theorem local_readMember (pool : ConstantPool) : Local (MemberLayout.read pool) := by
  rw [readMember_eq]
  exact local_map _ (local_both local_readSite (fun _ => local_readSignature pool))

theorem readsForm_member (pool : ConstantPool) :
    ReadsForm Carrier.member (MemberLayout.read pool) := by
  rw [readMember_eq]
  exact readsForm_map _ (local_both local_readSite (fun _ => local_readSignature pool))
    (readsForm_both local_readSite (fun _ => local_readSignature pool) readsForm_site
      (fun _ => readsForm_plain _) (fun _ _ => rfl))
    (fun pair => rfl) (fun rule pair => rfl)

theorem readInner_eq (pool : ConstantPool) : InnerLayout.read pool =
    (fun entry => { name := entry.2.2, access := entry.2.1 }) <$>
      both InnerLayout.readIndices (fun index =>
        both FlagSite.read (fun _ => liftM (pool.className index))) := by
  simp only [InnerLayout.read, InnerLayout.readIndices, both, map_eq_pure_bind, bind_assoc,
    pure_bind]

theorem local_readInnerEntry (pool : ConstantPool) : Local (both InnerLayout.readIndices
    (fun index => both FlagSite.read (fun _ => liftM (pool.className index)))) :=
  local_both local_readIndices (fun index =>
    local_both local_readSite (fun _ => local_lift (pool.className index)))

theorem local_readInner (pool : ConstantPool) : Local (InnerLayout.read pool) := by
  rw [readInner_eq]
  exact local_map _ (local_readInnerEntry pool)

theorem readsForm_inner (pool : ConstantPool) :
    ReadsForm Carrier.inner (InnerLayout.read pool) := by
  rw [readInner_eq]
  refine readsForm_map (Carrier.plain.both (Carrier.site.both Carrier.plain))
    (local_readInnerEntry pool) ?_ (fun entry => rfl) (fun rule entry => rfl)
  refine readsForm_both local_readIndices (fun index =>
    local_both local_readSite (fun _ => local_lift (pool.className index)))
    (readsForm_plain _) (fun index => ?_) (fun _ _ => rfl)
  exact readsForm_both local_readSite (fun _ => local_lift (pool.className index)) readsForm_site
    (fun _ => readsForm_plain _) (fun _ _ => rfl)

/-- The contents of an attribute, once its name and length are known. -/
def readAttributeBody (pool : ConstantPool) (head : String × UInt32) : Reader (List InnerLayout) :=
  if head.1 = innerClassesName then counted (InnerLayout.read pool)
  else do
    skip head.2.toNat
    return []

theorem readClassAttribute_eq (pool : ConstantPool) : readClassAttribute pool =
    Prod.snd <$> both (readAttributeHead pool) (readAttributeBody pool) := by
  simp only [readClassAttribute, readAttributeHead, readAttributeBody, both, map_eq_pure_bind,
    bind_assoc, pure_bind, bind_pure]

theorem local_readAttributeBody (pool : ConstantPool) (head : String × UInt32) :
    Local (readAttributeBody pool head) := by
  unfold readAttributeBody
  by_cases hname : head.1 = innerClassesName
  · rw [if_pos hname]
    exact local_counted (local_readInner pool)
  · rw [if_neg hname]
    exact local_bind (local_skip _) (fun _ => local_pure _)

theorem local_readClassAttribute (pool : ConstantPool) : Local (readClassAttribute pool) := by
  rw [readClassAttribute_eq]
  exact local_map _ (local_both (local_readAttributeHead pool) (local_readAttributeBody pool))

theorem readsForm_attributeBody (pool : ConstantPool) (head : String × UInt32) :
    ReadsForm Carrier.inner.list (readAttributeBody pool head) := by
  unfold readAttributeBody
  by_cases hname : head.1 = innerClassesName
  · rw [if_pos hname]
    exact readsForm_counted (local_readInner pool) (readsForm_inner pool)
  · rw [if_neg hname, ← map_eq_pure_bind]
    exact readsForm_map Carrier.plain (local_skip _) (readsForm_plain _)
      (fun _ => rfl) (fun _ _ => rfl)

theorem readsForm_classAttribute (pool : ConstantPool) :
    ReadsForm Carrier.inner.list (readClassAttribute pool) := by
  rw [readClassAttribute_eq]
  exact readsForm_map _ (local_both (local_readAttributeHead pool) (local_readAttributeBody pool))
    (readsForm_both (local_readAttributeHead pool) (local_readAttributeBody pool)
      (readsForm_plain _) (readsForm_attributeBody pool) (fun _ _ => rfl))
    (fun pair => rfl) (fun rule pair => rfl)

/-! ### The class file -/

namespace ClassLayout

/-- Everything in front of the flag word of the class. -/
def readFront : Reader ConstantPool := do
  readMagic
  let _ ← word16
  let _ ← word16
  ConstantPool.read

/-- What stands between the flag word of the class and its fields: the numbers of the class and of
    its superclass, and the names of its interfaces. -/
def readSupertypes (pool : ConstantPool) : Reader (UInt16 × UInt16 × List String) := do
  let thisClass ← word16
  let superClass ← word16
  let interfaces ← counted pool.readClassName
  return (thisClass, superClass, interfaces)

/-- The names of the superclass and of the class. -/
def readNames (pool : ConstantPool) (indices : UInt16 × UInt16 × List String) :
    Reader (Option String × String) := do
  let superName ← superOf pool indices.2.1
  let name ← pool.className indices.1
  return (superName, name)

/-- What follows the numbers and interfaces: fields, methods, attributes, and at last the names. -/
def readTail (pool : ConstantPool) (indices : UInt16 × UInt16 × List String) :
    Reader (List MemberLayout × List MemberLayout × List (List InnerLayout) ×
      (Option String × String)) :=
  both (counted (MemberLayout.read pool)) (fun _ =>
    both (counted (MemberLayout.read pool)) (fun _ =>
      both (counted (readClassAttribute pool)) (fun _ => readNames pool indices)))

/-- Everything from the flag word of the class onwards. -/
def readBack (pool : ConstantPool) :
    Reader (FlagSite × (UInt16 × UInt16 × List String) × (List MemberLayout ×
      List MemberLayout × List (List InnerLayout) × (Option String × String))) :=
  both FlagSite.read (fun _ => both (readSupertypes pool) (readTail pool))

theorem read_eq : read =
    (fun parts =>
      { name := parts.2.2.2.2.2.2.2
        superName := parts.2.2.2.2.2.2.1
        interfaces := parts.2.2.1.2.2
        access := parts.2.1
        fields := parts.2.2.2.1
        methods := parts.2.2.2.2.1
        inner := parts.2.2.2.2.2.1.flatten }) <$> both readFront readBack := by
  simp only [read, readFront, readBack, readSupertypes, readTail, readNames, both,
    map_eq_pure_bind, bind_assoc, pure_bind]

theorem local_readFront : Local readFront := by
  refine local_bind (local_bind local_word32 (fun found => ?_)) (fun _ => local_bind local_word16
    (fun _ => local_bind local_word16 (fun _ => local_readPool)))
  by_cases hmagic : found = magic
  · rw [if_pos hmagic]
    exact local_pure ()
  · rw [if_neg hmagic]
    exact local_fail _

theorem local_readSupertypes (pool : ConstantPool) : Local (readSupertypes pool) :=
  local_bind local_word16 (fun _ => local_bind local_word16
    (fun _ => local_bind (local_counted (local_readClassName pool)) (fun _ => local_pure _)))

theorem local_readNames (pool : ConstantPool) (indices : UInt16 × UInt16 × List String) :
    Local (readNames pool indices) :=
  local_bind (local_lift _) (fun _ => local_bind (local_lift _) (fun _ => local_pure _))

theorem local_readTail (pool : ConstantPool) (indices : UInt16 × UInt16 × List String) :
    Local (readTail pool indices) :=
  local_both (local_counted (local_readMember pool)) (fun _ =>
    local_both (local_counted (local_readMember pool)) (fun _ =>
      local_both (local_counted (local_readClassAttribute pool))
        (fun _ => local_readNames pool indices)))

theorem local_readBack (pool : ConstantPool) : Local (readBack pool) :=
  local_both local_readSite (fun _ => local_both (local_readSupertypes pool) (local_readTail pool))

theorem local_read : Local read := by
  rw [read_eq]
  exact local_map _ (local_both local_readFront local_readBack)

theorem readsForm_tail (pool : ConstantPool) (indices : UInt16 × UInt16 × List String) :
    ReadsForm (Carrier.member.list.both (Carrier.member.list.both
      (Carrier.inner.list.list.both Carrier.plain))) (readTail pool indices) := by
  -- Fields, methods, attributes and names, each behind the ones before it.
  have hm := local_counted (local_readMember pool)
  have ha := local_counted (local_readClassAttribute pool)
  have hn := local_readNames pool indices
  have hmembers := readsForm_counted (local_readMember pool) (readsForm_member pool)
  refine readsForm_both hm (fun _ => local_both hm (fun _ => local_both ha (fun _ => hn)))
    hmembers (fun _ => ?_) (fun _ _ => rfl)
  refine readsForm_both hm (fun _ => local_both ha (fun _ => hn)) hmembers (fun _ => ?_)
    (fun _ _ => rfl)
  exact readsForm_both ha (fun _ => hn)
    (readsForm_counted (local_readClassAttribute pool) (readsForm_classAttribute pool))
    (fun _ => readsForm_plain _) (fun _ _ => rfl)

theorem readsForm_read : ReadsForm Carrier.layout read := by
  rw [read_eq]
  refine readsForm_map (Carrier.plain.both (Carrier.site.both (Carrier.plain.both
    (Carrier.member.list.both (Carrier.member.list.both (Carrier.inner.list.list.both
      Carrier.plain)))))) (local_both local_readFront local_readBack) ?_ (fun parts => ?_)
    (fun rule parts => ?_)
  · refine readsForm_both local_readFront local_readBack (readsForm_plain _) (fun pool => ?_)
      (fun _ _ => rfl)
    refine readsForm_both local_readSite (fun _ => local_both (local_readSupertypes pool)
      (local_readTail pool)) readsForm_site (fun _ => ?_) (fun _ _ => rfl)
    exact readsForm_both (local_readSupertypes pool) (local_readTail pool) (readsForm_plain _)
      (readsForm_tail pool) (fun _ _ => rfl)
  · -- The sites of the parts, one list behind the other, are those of the layout.
    simp only [Carrier.layout, sites, Carrier.both, Carrier.plain, Carrier.site, Carrier.list,
      Carrier.member, Carrier.inner, ← List.map_eq_flatMap, List.nil_append, List.append_nil,
      List.cons_append, List.append_assoc]
    rw [List.flatMap_def, List.map_flatten]
  · simp only [Carrier.layout, refill, Carrier.both, Carrier.plain, Carrier.site, Carrier.list,
      Carrier.member, Carrier.inner, List.map_flatten]

theorem sites_refill (rule : Rule) (layout : ClassLayout) :
    (layout.refill rule).sites = layout.sites.map (FlagSite.refill rule) := by
  simp only [sites, refill, List.map_append, List.map_cons, List.map_map]
  rfl

/-- A rule that keeps a layout keeps each of its flag words. -/
theorem flags_of_refill_eq {rule : Rule} {layout : ClassLayout} (h : layout.refill rule = layout) :
    ∀ site ∈ layout.sites, rule site.offset site.flags = site.flags := by
  intro site hmem
  have hsites : layout.sites.map (FlagSite.refill rule) = layout.sites.map id := by
    rw [← sites_refill, h, List.map_id]
  have hsite := List.map_inj_left.mp hsites site hmem
  exact congrArg FlagSite.flags hsite

/-- A class file that parses is a form whose blanks are the flag sites of the layout. However the
    blanks are filled in, and whatever bytes follow, the file parses to the same layout with the
    flags filled in. -/
theorem parse_form {bytes : Bytes} {layout : ClassLayout} (h : parse bytes = .ok layout) :
    ∃ form rest, bytes = Form.bytes form ++ rest ∧ Form.sites 0 form = layout.sites ∧
      ∀ rule more, parse (Form.bytes (Form.refill rule 0 form) ++ more) =
        .ok (layout.refill rule) := by
  rw [parse, runOn] at h
  cases hrun : read (.start bytes) with
  | error fault =>
      rw [hrun] at h
      cases h
  | ok result =>
      rcases result with ⟨found, cursor⟩
      rw [hrun] at h
      cases h
      -- What the reader takes is the form, and what it leaves behind is the rest.
      rcases local_read.takes _ _ _ _ hrun with ⟨taken, hbytes, -, htake⟩
      rcases readsForm_read _ _ _ htake with ⟨form, rfl, hsites, hrefill⟩
      refine ⟨form, cursor.rest, hbytes, hsites, fun rule more => ?_⟩
      rw [parse, runOn, Cursor.start, hrefill rule more]
      rfl

end ClassLayout

end AccessWidener
