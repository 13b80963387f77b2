import AccessWidener.Bytes

/-!
# UTF-8

Bytes are cut into pieces: a Unicode scalar value for every well-formed sequence, and a broken
piece for every maximal ill-formed one. An ill-formed sequence ends before the first byte that
cannot continue it, so that byte starts the next piece. Input that ends inside a sequence which was
well formed so far leaves one incomplete piece.

Strict decoding stops at the first broken piece and names its position; lossy decoding puts one
replacement character in its place.

## Main definitions

* `Utf8.pieces`: The pieces of a byte string.
* `Utf8.decode`: The text of well-formed bytes, or the first fault.
* `Utf8.decodeLossy`: The text with a replacement character for every broken piece.
* `Utf8.encode`: The bytes of a text.
* `Utf8.Fault.message`: How a fault is reported.
-/

namespace AccessWidener

namespace Utf8

/-- What the first byte of a sequence announces. Three- and four-byte sequences restrict the range
    of their second byte, which rules out overlong forms, surrogates and values past the last one. -/
inductive Lead where
  | single
  | double
  | triple (low high : UInt8)
  | quadruple (low high : UInt8)
  | none
deriving DecidableEq, Repr

/-- The announcement made by a first byte. -/
def lead (b : UInt8) : Lead :=
  if b < 0x80 then .single
  else if b < 0xC2 then .none
  else if b < 0xE0 then .double
  else if b = 0xE0 then .triple 0xA0 0xBF
  else if b = 0xED then .triple 0x80 0x9F
  else if b < 0xF0 then .triple 0x80 0xBF
  else if b = 0xF0 then .quadruple 0x90 0xBF
  else if b < 0xF4 then .quadruple 0x80 0xBF
  else if b = 0xF4 then .quadruple 0x80 0x8F
  else .none

/-- Whether `b` lies in the inclusive range from `low` to `high`. -/
def within (low high b : UInt8) : Bool :=
  low ≤ b && b ≤ high

/-- Whether `b` may stand in the second or a later place of a sequence. -/
def isContinuation (b : UInt8) : Bool :=
  within 0x80 0xBF b

/-- The scalar value of a two-byte sequence. -/
def scalar₂ (a b : UInt8) : Char :=
  Char.ofNat (a.toNat % 32 * 64 + b.toNat % 64)

/-- The scalar value of a three-byte sequence. -/
def scalar₃ (a b c : UInt8) : Char :=
  Char.ofNat (a.toNat % 16 * 4096 + b.toNat % 64 * 64 + c.toNat % 64)

/-- The scalar value of a four-byte sequence. -/
def scalar₄ (a b c d : UInt8) : Char :=
  Char.ofNat (a.toNat % 8 * 262144 + b.toNat % 64 * 4096 + c.toNat % 64 * 64 + d.toNat % 64)

/-- A maximal run of bytes that decoding treats as one unit. -/
inductive Piece where
  | scalar (c : Char)
  | invalid (length : Nat)
  | incomplete
deriving DecidableEq, Repr

/-- The pieces of a byte string, in order. -/
def pieces : Bytes → List Piece
  | [] => []
  | a :: r =>
    match lead a with
    | .single => .scalar (Char.ofNat a.toNat) :: pieces r
    | .none => .invalid 1 :: pieces r
    | .double =>
      match r with
      | [] => [.incomplete]
      | b :: r₁ =>
        if isContinuation b then .scalar (scalar₂ a b) :: pieces r₁
        else .invalid 1 :: pieces (b :: r₁)
    | .triple low high =>
      match r with
      | [] => [.incomplete]
      | b :: r₁ =>
        if within low high b then
          match r₁ with
          | [] => [.incomplete]
          | c :: r₂ =>
            if isContinuation c then .scalar (scalar₃ a b c) :: pieces r₂
            else .invalid 2 :: pieces (c :: r₂)
        else .invalid 1 :: pieces (b :: r₁)
    | .quadruple low high =>
      match r with
      | [] => [.incomplete]
      | b :: r₁ =>
        if within low high b then
          match r₁ with
          | [] => [.incomplete]
          | c :: r₂ =>
            if isContinuation c then
              match r₂ with
              | [] => [.incomplete]
              | d :: r₃ =>
                if isContinuation d then .scalar (scalar₄ a b c d) :: pieces r₃
                else .invalid 3 :: pieces (d :: r₃)
            else .invalid 2 :: pieces (c :: r₂)
        else .invalid 1 :: pieces (b :: r₁)

/-- Why bytes are not text. The index is the length of the well-formed part before the fault. -/
inductive Fault where
  | invalid (length index : Nat)
  | incomplete (index : Nat)
deriving DecidableEq, Repr

/-- How a fault is reported. -/
def Fault.message : Fault → String
  | .invalid length index => s!"invalid utf-8 sequence of {length} bytes from index {index}"
  | .incomplete index => s!"incomplete utf-8 byte sequence from index {index}"

/-- The scalar values of a list of pieces, or the first broken piece after `index` bytes. -/
def scalars (index : Nat) : List Piece → Except Fault (List Char)
  | [] => .ok []
  | .scalar c :: rest => (c :: ·) <$> scalars (index + c.utf8Size) rest
  | .invalid length :: _ => .error (.invalid length index)
  | .incomplete :: _ => .error (.incomplete index)

/-- The text that well-formed bytes encode. -/
def decode (bytes : Bytes) : Except Fault (List Char) :=
  scalars 0 (pieces bytes)

/-- The character that stands for a piece when faults are tolerated. -/
def Piece.replaced : Piece → Char
  | .scalar c => c
  | _ => '\uFFFD'

/-- The text of arbitrary bytes, with one replacement character for every broken piece. -/
def decodeLossy (bytes : Bytes) : List Char :=
  (pieces bytes).map Piece.replaced

/-- The UTF-8 bytes of a text. -/
def encode (text : List Char) : Bytes :=
  text.flatMap String.utf8EncodeChar

/-- The UTF-8 bytes of a string. -/
def encodeString (text : String) : Bytes :=
  encode text.toList

end Utf8

end AccessWidener
