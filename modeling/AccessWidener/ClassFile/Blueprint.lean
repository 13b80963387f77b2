import AccessWidener.ClassFile.Layout

/-!
# Class File Blueprints

A blueprint lists what a class declares and is assembled into a class file without code. Names are
put into the constant pool when they are first needed and shared afterwards; long constants are put
there first and are never shared.

## Main definitions

* `Blueprint`: A class with its supertypes, members and nested classes.
* `PoolDraft`: The constant pool of a class file being assembled.
* `Blueprint.assemble`: The class file of a blueprint.
-/

namespace AccessWidener

/-- A member of a class to be assembled. -/
structure MemberBlueprint where
  signature : Signature
  flags : UInt16
deriving DecidableEq, Repr

/-- A nested class to be listed by a class that is assembled. -/
structure InnerBlueprint where
  name : String
  flags : UInt16
deriving DecidableEq, Repr

/-- A class to be assembled. -/
structure Blueprint where
  name : String
  flags : UInt16
  superName : Option String := some "java/lang/Object"
  interfaces : List String := []
  fields : List MemberBlueprint := []
  methods : List MemberBlueprint := []
  inner : List InnerBlueprint := []
  longs : List UInt64 := []
  sourceFile : Option String := none
deriving DecidableEq, Repr

/-- The constants of a class file being assembled, in order. -/
abbrev PoolDraft := List Constant

namespace PoolDraft

/-- The number of slots that constants take. -/
def slotCount (draft : PoolDraft) : Nat :=
  draft.foldr (fun constant count => constant.width + count) 0

/-- The number of the first constant that equals `constant`, counting from `next`. -/
def numberFrom? (constant : Constant) (next : Nat) : PoolDraft → Option Nat
  | [] => none
  | held :: rest =>
    if held = constant then some next else numberFrom? constant (next + held.width) rest

/-- The number of a constant in the draft. -/
def number? (constant : Constant) (draft : PoolDraft) : Option Nat :=
  numberFrom? constant 1 draft

end PoolDraft

/-- A step of an assembly, which may add constants to the pool. -/
abbrev Assembler := StateM PoolDraft

namespace Assembler

/-- Adds a constant and gives its number. -/
def append (constant : Constant) : Assembler UInt16 := fun draft =>
  (UInt16.ofNat (draft.slotCount + 1), draft ++ [constant])

/-- The number of a constant, which is added unless it is there. -/
def intern (constant : Constant) : Assembler UInt16 := fun draft =>
  match draft.number? constant with
  | some number => (UInt16.ofNat number, draft)
  | none => append constant draft

/-- The number of a text. -/
def text (value : String) : Assembler UInt16 :=
  intern (.utf8 (Utf8.encodeString value))

/-- The number of a class. -/
def className (name : String) : Assembler UInt16 := do
  let index ← text name
  intern (.classRef index)

/-- A table: a 16-bit count and the rows. -/
def table (rows : List Bytes) : Bytes :=
  Bytes.ofUInt16 (UInt16.ofNat rows.length) ++ rows.flatten

/-- An attribute: the number of its name, its length and its contents. -/
def attributeOf (name : UInt16) (contents : Bytes) : Bytes :=
  Bytes.ofUInt16 name ++ Bytes.ofUInt32 (UInt32.ofNat contents.length) ++ contents

end Assembler

/-- The class that encloses a nested one and the simple name inside it, split at the last dollar
    sign. -/
def splitNested? (name : String) : Option (String × String) :=
  let simple := name.toList.reverse.takeWhile (· ≠ '$')
  match name.toList.reverse.dropWhile (· ≠ '$') with
  | [] => none
  | _ :: outer => some (String.ofList outer.reverse, String.ofList simple.reverse)

/-- The form of a member without attributes. -/
def MemberBlueprint.assemble (member : MemberBlueprint) : Assembler Bytes := do
  let name ← Assembler.text member.signature.name
  let descriptor ← Assembler.text member.signature.descriptor
  return Bytes.ofUInt16 member.flags ++ Bytes.ofUInt16 name ++ Bytes.ofUInt16 descriptor ++
    Bytes.ofUInt16 0

/-- The numbers of the enclosing class and of the simple name of a nested class, zero if its name
    shows none. -/
def assembleEnclosing (name : String) : Assembler (UInt16 × UInt16) :=
  match splitNested? name with
  | none => return (0, 0)
  | some (outer, simple) => do
    let outerIndex ← Assembler.className outer
    let simpleIndex ← Assembler.text simple
    return (outerIndex, simpleIndex)

/-- The form of an entry of the `InnerClasses` attribute. -/
def InnerBlueprint.assemble (inner : InnerBlueprint) : Assembler Bytes := do
  let index ← Assembler.className inner.name
  let (outer, simple) ← assembleEnclosing inner.name
  return Bytes.ofUInt16 index ++ Bytes.ofUInt16 outer ++ Bytes.ofUInt16 simple ++
    Bytes.ofUInt16 inner.flags

namespace Blueprint

/-- The attribute that names the source file, if there is one. -/
def assembleSourceFile : Option String → Assembler (List Bytes)
  | none => return []
  | some source => do
    let name ← Assembler.text "SourceFile"
    let value ← Assembler.text source
    return [Assembler.attributeOf name (Bytes.ofUInt16 value)]

/-- The attribute that lists nested classes, if there are any. -/
def assembleInner : List InnerBlueprint → Assembler (List Bytes)
  | [] => return []
  | inner => do
    let name ← Assembler.text innerClassesName
    let rows ← inner.mapM InnerBlueprint.assemble
    return [Assembler.attributeOf name (Assembler.table rows)]

/-- The number of the superclass, zero for none. -/
def assembleSuper : Option String → Assembler UInt16
  | none => return 0
  | some name => Assembler.className name

/-- Everything behind the constant pool. -/
def assembleBody (blueprint : Blueprint) : Assembler Bytes := do
  let _ ← blueprint.longs.mapM fun value => Assembler.append (.long value)
  let thisClass ← Assembler.className blueprint.name
  let superClass ← assembleSuper blueprint.superName
  let interfaces ← blueprint.interfaces.mapM Assembler.className
  let fields ← blueprint.fields.mapM MemberBlueprint.assemble
  let methods ← blueprint.methods.mapM MemberBlueprint.assemble
  let sourceFile ← assembleSourceFile blueprint.sourceFile
  let inner ← assembleInner blueprint.inner
  return Bytes.ofUInt16 blueprint.flags ++ Bytes.ofUInt16 thisClass ++ Bytes.ofUInt16 superClass ++
    Assembler.table (interfaces.map Bytes.ofUInt16) ++ Assembler.table fields ++
    Assembler.table methods ++ Assembler.table (sourceFile ++ inner)

/-- The constant pool of a draft: one more than its number of slots, and then its constants. -/
def assemblePool (draft : PoolDraft) : Bytes :=
  Bytes.ofUInt16 (UInt16.ofNat (draft.slotCount + 1)) ++ draft.flatMap Constant.encode

/-- The class file of a blueprint, in format version 61.0. -/
def assemble (blueprint : Blueprint) : Bytes :=
  let (body, draft) := assembleBody blueprint []
  Bytes.ofUInt32 ClassLayout.magic ++ Bytes.ofUInt16 0 ++ Bytes.ofUInt16 61 ++
    assemblePool draft ++ body

end Blueprint

end AccessWidener
