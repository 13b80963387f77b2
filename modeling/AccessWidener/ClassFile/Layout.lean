import AccessWidener.ClassFile.Constant
import AccessWidener.Directive.Basic

/-!
# The Layout of a Class File

Only the names of a class and the places of its flag words matter for widening: one flag word for
the class itself, one for every field and method, and one for every entry of an `InnerClasses`
attribute. Everything else in the file is passed over.

## Main definitions

* `FlagSite`: The offset and value of a flag word.
* `MemberLayout`, `InnerLayout`, `ClassLayout`: What is known of a class file.
* `ClassLayout.parse`: The layout of a class file.
* `ClassLayout.member?`: The first declared member with a signature.
-/

namespace AccessWidener

/-- The place of a flag word and the flags recorded there. -/
structure FlagSite where
  offset : Nat
  flags : UInt16
deriving DecidableEq, Repr

/-- A declared field or method. -/
structure MemberLayout where
  signature : Signature
  access : FlagSite
deriving DecidableEq, Repr

/-- One entry of an `InnerClasses` attribute. -/
structure InnerLayout where
  name : String
  access : FlagSite
deriving DecidableEq, Repr

/-- The names and the flag words of a class file, in file order. -/
structure ClassLayout where
  name : String
  superName : Option String
  interfaces : List String
  access : FlagSite
  fields : List MemberLayout
  methods : List MemberLayout
  inner : List InnerLayout
deriving DecidableEq, Repr

/-- Reads a flag word and notes where it stood. -/
def FlagSite.read : Reader FlagSite := do
  let offset ← Reader.offset
  let flags ← Reader.word16
  return { offset, flags }

/-- Reads a constant number and looks the text up. -/
def ConstantPool.readText (pool : ConstantPool) : Reader String := do
  let index ← Reader.word16
  pool.text index

/-- Reads a constant number and looks the class name up. -/
def ConstantPool.readClassName (pool : ConstantPool) : Reader String := do
  let index ← Reader.word16
  pool.className index

/-- Passes over an attribute: the number of its name, its length and its contents. -/
def skipAttribute : Reader Unit := do
  let _ ← Reader.word16
  let length ← Reader.word32
  Reader.skip length.toNat

/-- Reads a field or method and passes over its attributes. -/
def MemberLayout.read (pool : ConstantPool) : Reader MemberLayout := do
  let access ← FlagSite.read
  let name ← pool.readText
  let descriptor ← pool.readText
  let _ ← Reader.counted skipAttribute
  return { signature := { name, descriptor }, access }

/-- Reads an entry of an `InnerClasses` attribute: the inner class, the outer class, the simple
    name and the flags. The inner name is looked up once the whole entry is read. -/
def InnerLayout.read (pool : ConstantPool) : Reader InnerLayout := do
  let inner ← Reader.word16
  let _ ← Reader.word16
  let _ ← Reader.word16
  let access ← FlagSite.read
  let name ← pool.className inner
  return { name, access }

/-- The name of the attribute that lists nested classes. -/
def innerClassesName : String := "InnerClasses"

/-- Reads an attribute of the class. The entries of an `InnerClasses` attribute are read by their
    own count; the length of any other attribute is passed over. -/
def readClassAttribute (pool : ConstantPool) : Reader (List InnerLayout) := do
  let name ← pool.readText
  let length ← Reader.word32
  if name = innerClassesName then Reader.counted (InnerLayout.read pool)
  else do
    Reader.skip length.toNat
    return []

namespace ClassLayout

/-- The first word of every class file. -/
def magic : UInt32 := 0xCAFEBABE

/-- Reads the magic word. -/
def readMagic : Reader Unit := do
  let found ← Reader.word32
  if found = magic then return () else Reader.fail .invalidMagic

/-- The name of the superclass; number zero stands for none. -/
def superOf (pool : ConstantPool) (index : UInt16) : Except ClassFault (Option String) :=
  if index = 0 then .ok none else some <$> pool.className index

/-- Reads a class file. The names of the superclass and of the class are looked up at the end. -/
def read : Reader ClassLayout := do
  readMagic
  let _ ← Reader.word16
  let _ ← Reader.word16
  let pool ← ConstantPool.read
  let access ← FlagSite.read
  let thisClass ← Reader.word16
  let superClass ← Reader.word16
  let interfaces ← Reader.counted pool.readClassName
  let fields ← Reader.counted (MemberLayout.read pool)
  let methods ← Reader.counted (MemberLayout.read pool)
  let attributes ← Reader.counted (readClassAttribute pool)
  let superName ← superOf pool superClass
  let name ← pool.className thisClass
  return { name, superName, interfaces, access, fields, methods, inner := attributes.flatten }

/-- The layout of a class file. Bytes after its end are ignored. -/
def parse (bytes : Bytes) : Except ClassFault ClassLayout :=
  read.runOn bytes

/-- The members of one kind, in file order. -/
def members (layout : ClassLayout) : MemberKind → List MemberLayout
  | .method => layout.methods
  | .field => layout.fields

/-- The first declared member of a kind with a signature. -/
def member? (layout : ClassLayout) (kind : MemberKind) (signature : Signature) :
    Option MemberLayout :=
  (layout.members kind).find? (·.signature = signature)

/-- Every flag word of a class file: the class, its fields, its methods, its inner classes. -/
def sites (layout : ClassLayout) : List FlagSite :=
  layout.access :: layout.fields.map (·.access) ++ layout.methods.map (·.access) ++
    layout.inner.map (·.access)

end ClassLayout

end AccessWidener
