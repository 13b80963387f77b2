import AccessWidener.ClassFile.Cursor
import AccessWidener.Text.Utf8

/-!
# Constant Pools

A class file keeps its names in a pool of constants of seventeen kinds, each announced by a tag
byte. Constants are numbered from one. A long or a double takes two numbers, and the second of them
names nothing, like number zero.

## Main definitions

* `Constant`: One constant of a pool.
* `Constant.width`: How many numbers it takes.
* `Constant.encode`, `Constant.read`: Its form in a class file.
* `ConstantPool`: Constants by number, and `ConstantPool.read`.
* `ConstantPool.text`, `ConstantPool.className`: The names that a number stands for.
-/

namespace AccessWidener

/-- One constant of a pool. Cross references are numbers of other constants. -/
inductive Constant where
  | utf8 (text : Bytes)
  | integer (value : UInt32)
  | float (bits : UInt32)
  | long (value : UInt64)
  | double (bits : UInt64)
  | classRef (name : UInt16)
  | string (text : UInt16)
  | fieldRef (owner signature : UInt16)
  | methodRef (owner signature : UInt16)
  | interfaceMethodRef (owner signature : UInt16)
  | nameAndType (name descriptor : UInt16)
  | methodHandle (kind : UInt8) (target : UInt16)
  | methodType (descriptor : UInt16)
  | dynamic (bootstrap signature : UInt16)
  | invokeDynamic (bootstrap signature : UInt16)
  | moduleRef (name : UInt16)
  | packageRef (name : UInt16)
deriving DecidableEq, Repr

namespace Constant

/-- The tag byte that announces a constant. -/
def tag : Constant → UInt8
  | utf8 _ => 1
  | integer _ => 3
  | float _ => 4
  | long _ => 5
  | double _ => 6
  | classRef _ => 7
  | string _ => 8
  | fieldRef .. => 9
  | methodRef .. => 10
  | interfaceMethodRef .. => 11
  | nameAndType .. => 12
  | methodHandle .. => 15
  | methodType _ => 16
  | dynamic .. => 17
  | invokeDynamic .. => 18
  | moduleRef _ => 19
  | packageRef _ => 20

/-- Whether a constant takes two numbers. -/
def isWide : Constant → Bool
  | long _ | double _ => true
  | _ => false

/-- How many numbers a constant takes. -/
def width (constant : Constant) : Nat :=
  if constant.isWide then 2 else 1

/-- The bytes that follow the tag. The length of a text is kept in sixteen bits. -/
def payload : Constant → Bytes
  | utf8 text => Bytes.ofUInt16 (UInt16.ofNat text.length) ++ text
  | integer value | float value => Bytes.ofUInt32 value
  | long value | double value => Bytes.ofUInt64 value
  | classRef index | string index | methodType index | moduleRef index | packageRef index =>
    Bytes.ofUInt16 index
  | fieldRef a b | methodRef a b | interfaceMethodRef a b | nameAndType a b | dynamic a b
  | invokeDynamic a b => Bytes.ofUInt16 a ++ Bytes.ofUInt16 b
  | methodHandle kind target => kind :: Bytes.ofUInt16 target

/-- The form of a constant in a class file. -/
def encode (constant : Constant) : Bytes :=
  constant.tag :: constant.payload

/-- Reads two references and combines them. -/
def readPair (combine : UInt16 → UInt16 → Constant) : Reader Constant := do
  let a ← Reader.word16
  let b ← Reader.word16
  return combine a b

/-- Reads what follows a tag. -/
def readPayload (tag : UInt8) : Reader Constant :=
  match tag with
  | 1 => do
    let length ← Reader.word16
    utf8 <$> Reader.take length.toNat
  | 3 => integer <$> Reader.word32
  | 4 => float <$> Reader.word32
  | 5 => long <$> Reader.word64
  | 6 => double <$> Reader.word64
  | 7 => classRef <$> Reader.word16
  | 8 => string <$> Reader.word16
  | 9 => readPair fieldRef
  | 10 => readPair methodRef
  | 11 => readPair interfaceMethodRef
  | 12 => readPair nameAndType
  | 15 => do
    let kind ← Reader.byte
    methodHandle kind <$> Reader.word16
  | 16 => methodType <$> Reader.word16
  | 17 => readPair dynamic
  | 18 => readPair invokeDynamic
  | 19 => moduleRef <$> Reader.word16
  | 20 => packageRef <$> Reader.word16
  | other => Reader.fail (.unsupportedConstant other)

/-- Reads one constant. -/
def read : Reader Constant := do
  readPayload (← Reader.byte)

/-- The slots that a constant takes, the second one of a wide constant being empty. -/
def slots (constant : Constant) : List (Option Constant) :=
  if constant.isWide then [some constant, none] else [some constant]

end Constant

/-- Constants by number. Number zero and the second number of a wide constant hold nothing. -/
structure ConstantPool where
  slots : Array (Option Constant)
deriving DecidableEq, Repr

namespace ConstantPool

/-- The pool of a list of constants, numbered from one. -/
def ofConstants (constants : List Constant) : ConstantPool where
  slots := (none :: constants.flatMap Constant.slots).toArray

/-- Reads constants until `slots` numbers are taken. A wide constant in last place runs over. -/
def readConstants : Nat → Reader (List Constant)
  | 0 => pure []
  | 1 => do
    let last ← Constant.read
    return [last]
  | slots + 2 => do
    let first ← Constant.read
    let others ← if first.isWide then readConstants slots else readConstants (slots + 1)
    return first :: others

/-- Reads a pool: one more than its number of slots, and then its constants. -/
def read : Reader ConstantPool := do
  let count ← Reader.word16
  ofConstants <$> readConstants (count.toNat - 1)

/-- The constant with a number. -/
def get? (pool : ConstantPool) (index : UInt16) : Option Constant :=
  (pool.slots[index.toNat]?).join

/-- The text with a number. Ill-formed bytes in it show as replacement characters. -/
def text (pool : ConstantPool) (index : UInt16) : Except ClassFault String :=
  match pool.get? index with
  | some (.utf8 bytes) => .ok (String.ofList (Utf8.decodeLossy bytes))
  | _ => .error (.invalidIndex index)

/-- The name of the class with a number. -/
def className (pool : ConstantPool) (index : UInt16) : Except ClassFault String :=
  match pool.get? index with
  | some (.classRef name) => pool.text name
  | _ => .error (.invalidIndex index)

end ConstantPool

end AccessWidener
