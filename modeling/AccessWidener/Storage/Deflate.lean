import AccessWidener.Bytes

/-!
# Deflate

The compressed form of archive entries: blocks that hold bytes as they are, or symbols in a prefix
code, where a symbol is a byte, the end of the block, or the length of a stretch that occurred
before. Every form is read; what is written holds the bytes as they are.

## Main definitions

* `BitReader`: What takes bits off the front of a byte string.
* `CodeTree`, `CodeTree.ofLengths?`: The prefix code that is given by the lengths of its words.
* `Deflate.expand?`: The bytes that a compressed form stands for.
* `Deflate.wrap`: A compressed form of some bytes.
-/

namespace AccessWidener

/-- The bits that are left: of the byte that was begun, and of those behind it. -/
structure BitSource where
  begun : UInt8 := 0
  left : Nat := 0
  rest : Bytes
deriving DecidableEq, Repr

/-- A step that takes bits off the front. -/
abbrev BitReader := StateT BitSource Option

namespace BitReader

/-- Takes one bit. The low bit of a byte comes first. -/
def bit : BitReader Bool := fun source =>
  match source.left, source.rest with
  | n + 1, rest => some (source.begun &&& 1 = 1, { begun := source.begun >>> 1, left := n, rest })
  | 0, b :: rest => some (b &&& 1 = 1, { begun := b >>> 1, left := 7, rest })
  | 0, [] => none

/-- Takes a number of `n` bits, the low one first. -/
def number : Nat → BitReader Nat
  | 0 => return 0
  | n + 1 => do
    let low ← bit
    let high ← number n
    return low.toNat + 2 * high

/-- Passes over what is left of the byte that was begun. -/
def align : BitReader Unit := fun source => some ((), { rest := source.rest })

/-- Takes `n` whole bytes, behind the byte that was begun. -/
def bytes (n : Nat) : BitReader Bytes := fun source =>
  let taken := source.rest.take n
  if taken.length = n then some (taken, { rest := source.rest.drop n }) else none

end BitReader

/-- A prefix code: a word leads through the tree to the symbol that it stands for. -/
inductive CodeTree where
  | unused
  | symbol (value : Nat)
  | branch (zero one : CodeTree)
deriving DecidableEq, Repr

namespace CodeTree

/-- The tree below a word of length `depth`, and the symbols it does not take up. Symbols come with
    the lengths of their words, in the order of the words. -/
def grow (depth : Nat) : Nat → List (Nat × Nat) → CodeTree × List (Nat × Nat)
  | _, [] => (unused, [])
  | 0, symbols => (unused, symbols)
  | n + 1, (length, value) :: others =>
    if length = depth then (symbol value, others)
    else
      let (zero, behind) := grow (depth + 1) n ((length, value) :: others)
      let (one, left) := grow (depth + 1) n behind
      (branch zero one, left)

/-- The code in which a symbol has a word of the given length, or no word if the length is zero.
    Shorter words come first, and among words of one length those of smaller symbols. There is no
    such code if the lengths are too small. -/
def ofLengths? (lengths : List Nat) : Option CodeTree :=
  let used := lengths.zipIdx.filter (·.1 ≠ 0)
  match grow 0 16 (used.mergeSort fun left right => left.1 ≤ right.1) with
  | (tree, []) => some tree
  | _ => none

/-- Takes a word and gives its symbol. -/
def read : CodeTree → BitReader Nat
  | unused => failure
  | symbol value => return value
  | branch zero one => do
    if ← BitReader.bit then one.read else zero.read

end CodeTree

namespace Deflate

/-- The code of bytes, ends and lengths that a block may use without spelling it out. -/
def fixedLengths : List Nat :=
  List.replicate 144 8 ++ List.replicate 112 9 ++ List.replicate 24 7 ++ List.replicate 8 8

/-- The number that a symbol stands for together with the bits behind it. The first `2 ^ (k + 1)`
    symbols stand for themselves; of those behind, each further `2 ^ k` have one more bit. -/
def graded (k symbol : Nat) : BitReader Nat :=
  let grade := 1 <<< k
  if symbol < 2 * grade then return symbol
  else do
    let extra := symbol / grade - 1
    let low ← BitReader.number extra
    return ((grade + symbol % grade) <<< extra) + low

/-- The length of a stretch, whose first symbol is 257. -/
def stretchLength (symbol : Nat) : BitReader Nat :=
  if symbol = 285 then return 258
  else if symbol < 285 then do
    return 3 + (← graded 2 (symbol - 257))
  else failure

/-- How far back a stretch occurred. -/
def stretchDistance (symbol : Nat) : BitReader Nat :=
  if symbol < 30 then do
    return 1 + (← graded 1 symbol)
  else failure

/-- The output followed by `length` bytes that are each found `distance` bytes before. -/
def repeated (distance : Nat) : Nat → ByteArray → ByteArray
  | 0, output => output
  | length + 1, output =>
    repeated distance length (output.push (output[output.size - distance]?.getD 0))

/-- The output after the symbols of a block, of which there are fewer than `fuel`. -/
def expandSymbols (literals distances : CodeTree) : Nat → ByteArray → BitReader ByteArray
  | 0, _ => failure
  | fuel + 1, output => do
    let symbol ← literals.read
    if symbol < 256 then expandSymbols literals distances fuel (output.push (UInt8.ofNat symbol))
    else if symbol = 256 then return output
    else
      let length ← stretchLength symbol
      let distance ← stretchDistance (← distances.read)
      if output.size < distance then failure
      else expandSymbols literals distances fuel (repeated distance length output)

/-- The lengths of code words, themselves in a prefix code, of which `missing` are still to come.
    Those already known are given last first. -/
def readLengths (code : CodeTree) (fuel missing : Nat) (known : List Nat) : BitReader (List Nat) :=
  match fuel, missing with
  | _, 0 => return known.reverse
  | 0, _ => failure
  | fuel + 1, missing => do
    let symbol ← code.read
    let (count, length) ←
      if symbol < 16 then pure (1, symbol)
      else if symbol = 16 then
        match known with
        | [] => failure
        | last :: _ => pure (3 + (← BitReader.number 2), last)
      else if symbol = 17 then pure (3 + (← BitReader.number 3), 0)
      else pure (11 + (← BitReader.number 7), 0)
    if missing < count then failure
    else readLengths code fuel (missing - count) (List.replicate count length ++ known)

/-- The order in which the lengths for the code of code lengths are given. -/
def lengthOrder : List Nat :=
  [16, 17, 18, 0, 8, 7, 9, 6, 10, 5, 11, 4, 12, 3, 13, 2, 14, 1, 15]

/-- The two codes that a block spells out. -/
def readCodes : BitReader (CodeTree × CodeTree) := do
  let literals := 257 + (← BitReader.number 5)
  let distances := 1 + (← BitReader.number 5)
  let count := 4 + (← BitReader.number 4)
  let given ← (List.range count).mapM fun _ => BitReader.number 3
  let lengthAt := fun symbol => ((lengthOrder.zip given).lookup symbol).getD 0
  let code ← (CodeTree.ofLengths? ((List.range 19).map lengthAt) : Option CodeTree)
  let lengths ← readLengths code (literals + distances) (literals + distances) []
  let literalCode ← (CodeTree.ofLengths? (lengths.take literals) : Option CodeTree)
  let distanceCode ← (CodeTree.ofLengths? (lengths.drop literals) : Option CodeTree)
  return (literalCode, distanceCode)

/-- The output after a block that holds bytes as they are, behind their number and its
    complement. -/
def expandPlain (output : ByteArray) : BitReader ByteArray := do
  BitReader.align
  match ← BitReader.bytes 4 with
  | [a, b, c, d] =>
    if Bytes.toUInt16 b a = ~~~ Bytes.toUInt16 d c then
      return (← BitReader.bytes (Bytes.toUInt16 b a).toNat).foldl ByteArray.push output
    else failure
  | _ => failure

/-- The output after the remaining blocks, which hold fewer than `fuel` symbols each and are fewer
    than `blocks` themselves. -/
def expandBlocks (fuel : Nat) : Nat → ByteArray → BitReader ByteArray
  | 0, _ => failure
  | blocks + 1, output => do
    let final ← BitReader.bit
    let output ← match ← BitReader.number 2 with
      | 0 => expandPlain output
      | 1 => do
        let literals ← (CodeTree.ofLengths? fixedLengths : Option CodeTree)
        let distances ← (CodeTree.ofLengths? (List.replicate 30 5) : Option CodeTree)
        expandSymbols literals distances fuel output
      | 2 => do
        let (literals, distances) ← readCodes
        expandSymbols literals distances fuel output
      | _ => failure
    if final then return output else expandBlocks fuel blocks output

/-- The bytes that a compressed form stands for. A block and a symbol take at least one bit each,
    so that there are at most as many as there are bits. -/
def expand? (compressed : Bytes) : Option Bytes :=
  let bits := 8 * compressed.length + 1
  ((expandBlocks bits bits ByteArray.empty).run { rest := compressed }).map
    fun (output, _) => output.data.toList

/-- The largest number of bytes that one plain block holds. -/
def plainLimit : Nat := 65535

/-- A block that holds bytes as they are. -/
def plainBlock (final : Bool) (contents : Bytes) : Bytes :=
  let length := UInt16.ofNat contents.length
  final.toUInt8 :: length.toUInt8 :: (length >>> 8).toUInt8 ::
    (~~~length).toUInt8 :: ((~~~length) >>> 8).toUInt8 :: contents

/-- A compressed form of some bytes, which holds them as they are. -/
def wrap (contents : Bytes) : Bytes :=
  if contents.length ≤ plainLimit then plainBlock true contents
  else plainBlock false (contents.take plainLimit) ++ wrap (contents.drop plainLimit)
termination_by contents.length
decreasing_by
  simp only [List.length_drop, plainLimit] at *
  omega

end Deflate

end AccessWidener
