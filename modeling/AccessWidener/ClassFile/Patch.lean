import AccessWidener.ClassFile.Layout

/-!
# Patching Flag Words

A flag word is overwritten in place, so patching a class file changes nothing but the flag words
that are written.

## Main definitions

* `writeFlags`: The file with one flag word overwritten.
* `writeSites`: Several flag words overwritten in place.
-/

namespace AccessWidener

/-- The file with the two bytes at `offset` replaced by a flag word. -/
def writeFlags (bytes : Bytes) (offset : Nat) (flags : UInt16) : Except ClassFault Bytes :=
  if offset + 2 ≤ bytes.length then
    .ok (bytes.take offset ++ Bytes.ofUInt16 flags ++ bytes.drop (offset + 2))
  else .error (.invalidSite offset)

/-- Overwrites the word of every site with the flags of the site, in order, up to the first one that
    lies outside the file. What is left of the file comes first; then whether any byte changed. -/
def writeSites (bytes : Bytes) : List FlagSite → Bytes × Except ClassFault Bool
  | [] => (bytes, .ok false)
  | site :: rest =>
    match writeFlags bytes site.offset site.flags with
    | .error fault => (bytes, .error fault)
    | .ok written =>
      let (left, changed) := writeSites written rest
      (left, changed.map (written ≠ bytes || ·))

end AccessWidener
