import AccessWidener.Bytes

/-!
# Reading Class Files

A class file is read front to back. A cursor knows the offset reached and the bytes that are left;
a reader either takes something off the front and moves the cursor, or stops with a fault.

## Main definitions

* `ClassFault`: Why a class file is refused, and `ClassFault.message`, the wording.
* `Cursor`, `Reader`: The position in a file, and what moves it.
* `Reader.byte`, `Reader.word16`, `Reader.word32`, `Reader.take`, `Reader.skip`: The primitives.
* `Reader.times`: A reader repeated a fixed number of times.
-/

namespace AccessWidener

/-- Why a class file is refused. -/
inductive ClassFault where
  | unexpectedEnd
  | invalidMagic
  | unsupportedConstant (tag : UInt8)
  | invalidIndex (index : UInt16)
  | invalidSite (offset : Nat)
deriving DecidableEq, Repr

/-- The wording of a class file fault. -/
def ClassFault.message : ClassFault → String
  | unexpectedEnd => "unexpected end of class file"
  | invalidMagic => "invalid class file magic header"
  | unsupportedConstant tag => s!"unsupported constant pool tag {tag.toNat}"
  | invalidIndex index => s!"invalid constant pool index {index.toNat}"
  | invalidSite offset => s!"flag offset {offset} is outside the class file"

/-- A position in a file: how many bytes precede it, and the bytes that follow. -/
structure Cursor where
  offset : Nat
  rest : Bytes
deriving DecidableEq, Repr

/-- The cursor at the start of a file. -/
def Cursor.start (bytes : Bytes) : Cursor :=
  { offset := 0, rest := bytes }

/-- A step that takes something off the front of a file. -/
abbrev Reader := StateT Cursor (Except ClassFault)

namespace Reader

/-- The first `n` bytes and what follows them, if there are that many. -/
def splitExactly : Nat → Bytes → Option (Bytes × Bytes)
  | 0, rest => some ([], rest)
  | _ + 1, [] => none
  | n + 1, b :: rest => (splitExactly n rest).map fun (taken, left) => (b :: taken, left)

/-- Reads the next `n` bytes. -/
def take (n : Nat) : Reader Bytes := fun cursor =>
  match splitExactly n cursor.rest with
  | some (taken, left) => .ok (taken, { offset := cursor.offset + n, rest := left })
  | none => .error .unexpectedEnd

/-- Passes over the next `n` bytes. -/
def skip (n : Nat) : Reader Unit := do
  let _ ← take n

/-- Reads one byte. -/
def byte : Reader UInt8 := fun cursor =>
  match cursor.rest with
  | a :: left => .ok (a, { offset := cursor.offset + 1, rest := left })
  | _ => .error .unexpectedEnd

/-- Reads a 16-bit word. -/
def word16 : Reader UInt16 := fun cursor =>
  match cursor.rest with
  | a :: b :: left => .ok (Bytes.toUInt16 a b, { offset := cursor.offset + 2, rest := left })
  | _ => .error .unexpectedEnd

/-- Reads a 32-bit word. -/
def word32 : Reader UInt32 := fun cursor =>
  match cursor.rest with
  | a :: b :: c :: d :: left =>
    .ok (Bytes.toUInt32 a b c d, { offset := cursor.offset + 4, rest := left })
  | _ => .error .unexpectedEnd

/-- Reads a 64-bit word. -/
def word64 : Reader UInt64 := do
  let high ← word32
  let low ← word32
  return Bytes.toUInt64 high low

/-- Runs a reader `n` times and collects the results in order. -/
def times {α : Type} (reader : Reader α) : Nat → Reader (List α)
  | 0 => pure []
  | n + 1 => do
    let first ← reader
    let others ← times reader n
    return first :: others

/-- Reads a 16-bit count and then that many items. -/
def counted {α : Type} (reader : Reader α) : Reader (List α) := do
  let count ← word16
  times reader count.toNat

/-- The number of bytes read so far. -/
def offset : Reader Nat := fun cursor => .ok (cursor.offset, cursor)

/-- Stops with a fault. -/
def fail {α : Type} (fault : ClassFault) : Reader α := fun _ => .error fault

/-- The result of a reader on a whole file; what follows is not looked at. -/
def runOn {α : Type} (reader : Reader α) (bytes : Bytes) : Except ClassFault α :=
  match reader (.start bytes) with
  | .ok (result, _) => .ok result
  | .error fault => .error fault

end Reader

end AccessWidener
