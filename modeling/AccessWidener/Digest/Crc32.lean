import AccessWidener.Bytes

/-!
# CRC-32

The cyclic redundancy check with the reflected polynomial `0xEDB88320`, by which archives notice
damaged contents.

## Main definitions

* `Crc32.checksum`: The check of a byte string.
-/

namespace AccessWidener

namespace Crc32

/-- The remainder after one more bit. -/
def step (remainder : UInt32) : UInt32 :=
  if remainder &&& 1 = 1 then (remainder >>> 1) ^^^ 0xEDB88320 else remainder >>> 1

/-- The remainder after one more byte, whose low bit comes first. -/
def absorb (remainder : UInt32) (b : UInt8) : UInt32 :=
  step <| step <| step <| step <| step <| step <| step <| step <| remainder ^^^ b.toUInt32

/-- The check of a byte string. -/
def checksum (bytes : Bytes) : UInt32 :=
  bytes.foldl absorb 0xFFFFFFFF ^^^ 0xFFFFFFFF

end Crc32

end AccessWidener
