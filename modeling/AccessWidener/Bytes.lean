/-!
# Byte Strings

Files, archive entries and class files are finite lists of bytes. Multi-byte words are written
most significant byte first, and bytes are shown as lower-case hexadecimal text.

## Main definitions

* `Bytes`: A list of bytes.
* `Bytes.ofUInt16`, `Bytes.ofUInt32`, `Bytes.ofUInt64`: Big-endian words.
* `Bytes.toUInt16`, `Bytes.toUInt32`, `Bytes.toUInt64`: The words that big-endian bytes hold.
* `Bytes.toHex`: Two hexadecimal digits per byte.

## Theorems

* `length_ofUInt16`, `length_ofUInt32`, `length_ofUInt64`: Words have a fixed width.
* `ofUInt16_toUInt16`, `toUInt16_ofUInt16`: Two bytes and the word they hold determine each other.
-/

namespace AccessWidener

/-- A finite string of bytes. -/
abbrev Bytes := List UInt8

namespace Bytes

/-- The two bytes of a word, most significant first. -/
def ofUInt16 (word : UInt16) : Bytes :=
  [(word >>> 8).toUInt8, word.toUInt8]

/-- The four bytes of a word, most significant first. -/
def ofUInt32 (word : UInt32) : Bytes :=
  [(word >>> 24).toUInt8, (word >>> 16).toUInt8, (word >>> 8).toUInt8, word.toUInt8]

/-- The eight bytes of a word, most significant first. -/
def ofUInt64 (word : UInt64) : Bytes :=
  ofUInt32 (word >>> 32).toUInt32 ++ ofUInt32 word.toUInt32

/-- The word whose high byte is `a` and whose low byte is `b`. -/
def toUInt16 (a b : UInt8) : UInt16 :=
  (a.toUInt16 <<< 8) ||| b.toUInt16

/-- The word made of four bytes, most significant first. -/
def toUInt32 (a b c d : UInt8) : UInt32 :=
  (a.toUInt32 <<< 24) ||| (b.toUInt32 <<< 16) ||| (c.toUInt32 <<< 8) ||| d.toUInt32

/-- The word made of two half words, the high half first. -/
def toUInt64 (high low : UInt32) : UInt64 :=
  (high.toUInt64 <<< 32) ||| low.toUInt64

@[simp]
theorem length_ofUInt16 (word : UInt16) : (ofUInt16 word).length = 2 := rfl

@[simp]
theorem length_ofUInt32 (word : UInt32) : (ofUInt32 word).length = 4 := rfl

@[simp]
theorem length_ofUInt64 (word : UInt64) : (ofUInt64 word).length = 8 := rfl

/-- The high byte counts 256 times. -/
theorem toNat_toUInt16 (a b : UInt8) : (toUInt16 a b).toNat = a.toNat * 256 + b.toNat := by
  have ha := a.toNat_lt
  have hb := b.toNat_lt
  have hor : a.toNat <<< 8 ||| b.toNat = a.toNat <<< 8 + b.toNat :=
    (Nat.shiftLeft_add_eq_or_of_lt hb _).symm
  simp only [toUInt16, UInt16.toNat_or, UInt16.toNat_shiftLeft, UInt8.toNat_toUInt16,
    UInt16.reduceToNat, Nat.reduceMod]
  rw [Nat.mod_eq_of_lt (by rw [Nat.shiftLeft_eq]; omega), hor, Nat.shiftLeft_eq]

theorem ofUInt16_toUInt16 (a b : UInt8) : ofUInt16 (toUInt16 a b) = [a, b] := by
  have ha := a.toNat_lt
  have hb := b.toNat_lt
  have hlow : (toUInt16 a b).toUInt8 = b := by
    apply UInt8.toNat_inj.mp
    rw [UInt16.toNat_toUInt8, toNat_toUInt16]
    omega
  have hhigh : (toUInt16 a b >>> 8).toUInt8 = a := by
    apply UInt8.toNat_inj.mp
    simp only [UInt16.toNat_toUInt8, UInt16.toNat_shiftRight, toNat_toUInt16,
      UInt16.reduceToNat, Nat.reduceMod, Nat.shiftRight_eq_div_pow]
    omega
  rw [ofUInt16, hlow, hhigh]

theorem toUInt16_ofUInt16 (word : UInt16) :
    toUInt16 (word >>> 8).toUInt8 word.toUInt8 = word := by
  have hword := word.toNat_lt
  apply UInt16.toNat_inj.mp
  rw [toNat_toUInt16]
  simp only [UInt16.toNat_toUInt8, UInt16.toNat_shiftRight, UInt16.reduceToNat, Nat.reduceMod,
    Nat.shiftRight_eq_div_pow]
  omega

/-- The lower-case hexadecimal digit of a number below sixteen. -/
def hexDigit (n : Nat) : Char :=
  if n < 10 then Char.ofNat ('0'.toNat + n) else Char.ofNat ('a'.toNat + (n - 10))

/-- Two lower-case hexadecimal digits per byte. -/
def toHex (bytes : Bytes) : String :=
  String.ofList <| bytes.flatMap fun b => [hexDigit (b.toNat / 16), hexDigit (b.toNat % 16)]

end Bytes

end AccessWidener
