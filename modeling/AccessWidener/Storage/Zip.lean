import AccessWidener.Digest.Crc32
import AccessWidener.Storage.Archive
import AccessWidener.Storage.Deflate
import AccessWidener.Text.Utf8

/-!
# Zip Files

The form of archives on disk. Each entry has a local record in front of its data, and the directory
at the end of the file holds what is known of all entries, and where they are. Numbers are written
least significant byte first. Entries may be held as they are or deflated; encrypted entries, and
files too large for 32-bit sizes, are not read.

A file is read into records, which keep everything that the directory tells. A record whose contents
stay the same is written as it was read.

## Main definitions

* `ZipRecord`, `ZipFile`: What a file holds.
* `ZipFile.parse`, `ZipFile.render`: Reading and writing.
* `ZipFile.toArchive?`: The archive that a file holds.
* `ZipFile.update`: The file with the contents of an archive.
-/

namespace AccessWidener

/-- An entry as the directory describes it, and its data. -/
structure ZipRecord where
  system : Nat
  flags : Nat
  method : Nat
  time : Nat
  date : Nat
  check : UInt32
  size : Nat
  name : Bytes
  extra : Bytes
  comment : Bytes
  internal : Nat
  external : Nat
  data : Bytes
deriving DecidableEq, Repr

/-- The entries of a zip file, and the comment at its end. -/
structure ZipFile where
  records : List ZipRecord
  comment : Bytes
deriving DecidableEq, Repr

namespace ZipRecord

/-- The contents of an entry, if they can be read and pass their check. -/
def contents? (record : ZipRecord) : Option Bytes := do
  guard (record.flags % 2 = 0)
  let contents ← match record.method with
    | 0 => some record.data
    | 8 => Deflate.expand? record.data
    | _ => none
  guard (contents.length = record.size ∧ Crc32.checksum contents = record.check)
  return contents

/-- The date and time at which an entry was modified. Seconds are even. -/
def modified (record : ZipRecord) : Timestamp where
  year := 1980 + record.date / 512
  month := record.date / 32 % 16
  day := record.date % 32
  hour := record.time / 2048
  minute := record.time / 32 % 64
  second := 2 * (record.time % 32)

/-- The permissions of an entry, which only some systems record. -/
def mode (record : ZipRecord) : Nat :=
  if record.system / 256 = 3 then record.external / 65536 % 512 else 0o644

/-- The entry that a record describes. -/
def toEntry? (record : ZipRecord) : Option ArchiveEntry := do
  return {
    name := String.ofList (Utf8.decodeLossy record.name)
    contents := ← record.contents?
    stored := record.method = 0
    mode := record.mode
    modified := record.modified }

/-- The record with other contents, held by the same method. -/
def withContents (record : ZipRecord) (contents : Bytes) : ZipRecord :=
  { record with
    check := Crc32.checksum contents
    size := contents.length
    data := if record.method = 8 then Deflate.wrap contents else contents }

/-- The flags of a record that is written. Its sizes stand in front of its data, not behind. -/
def writtenFlags (record : ZipRecord) : Nat :=
  if record.flags / 8 % 2 = 1 then record.flags - 8 else record.flags

end ZipRecord

namespace ZipFile

/-- The number in the `width` bytes from an offset on, least significant byte first. -/
def numberAt (file : ByteArray) (offset : Nat) : Nat → Option Nat
  | 0 => some 0
  | width + 1 => do
    let low ← file[offset]?
    let high ← numberAt file (offset + 1) width
    return low.toNat + 256 * high

/-- The `length` bytes from an offset on. -/
def bytesAt (file : ByteArray) (offset length : Nat) : Option Bytes :=
  if offset + length ≤ file.size then some (file.extract offset (offset + length)).data.toList
  else none

/-- What the record of an entry in the directory starts with. -/
def directoryMark : Nat := 0x02014B50

/-- What the record in front of the data of an entry starts with. -/
def localMark : Nat := 0x04034B50

/-- What the record at the end of the file starts with. -/
def endMark : Nat := 0x06054B50

/-- The data of an entry whose local record is at an offset. -/
def dataAt (file : ByteArray) (offset length : Nat) : Option Bytes := do
  guard ((← numberAt file offset 4) = localMark)
  let nameLength ← numberAt file (offset + 26) 2
  let extraLength ← numberAt file (offset + 28) 2
  bytesAt file (offset + 30 + nameLength + extraLength) length

/-- The record in the directory at an offset, and the offset behind it. -/
def recordAt (file : ByteArray) (offset : Nat) : Option (ZipRecord × Nat) := do
  guard ((← numberAt file offset 4) = directoryMark)
  let nameLength ← numberAt file (offset + 28) 2
  let extraLength ← numberAt file (offset + 30) 2
  let commentLength ← numberAt file (offset + 32) 2
  let extraStart := offset + 46 + nameLength
  let commentStart := extraStart + extraLength
  let record : ZipRecord := {
    system := ← numberAt file (offset + 4) 2
    flags := ← numberAt file (offset + 8) 2
    method := ← numberAt file (offset + 10) 2
    time := ← numberAt file (offset + 12) 2
    date := ← numberAt file (offset + 14) 2
    check := UInt32.ofNat (← numberAt file (offset + 16) 4)
    size := ← numberAt file (offset + 24) 4
    name := ← bytesAt file (offset + 46) nameLength
    extra := ← bytesAt file extraStart extraLength
    comment := ← bytesAt file commentStart commentLength
    internal := ← numberAt file (offset + 36) 2
    external := ← numberAt file (offset + 38) 4
    data := ← dataAt file (← numberAt file (offset + 42) 4) (← numberAt file (offset + 20) 4) }
  return (record, commentStart + commentLength)

/-- As many records of the directory as are asked for, from an offset on. -/
def recordsAt (file : ByteArray) (offset : Nat) : Nat → Option (List ZipRecord)
  | 0 => some []
  | count + 1 => do
    let (record, next) ← recordAt file offset
    return record :: (← recordsAt file next count)

/-- Whether the record at the end of a file is at an offset, so that its comment ends the file. -/
def endsAt (file : ByteArray) (offset : Nat) : Bool :=
  numberAt file offset 4 = some endMark &&
    (numberAt file (offset + 20) 2).any (offset + 22 + · = file.size)

/-- The offset of the record at the end of a file. -/
def findEnd? (file : ByteArray) : Option Nat :=
  ((List.range 65536).map (file.size - 22 - ·)).find? (endsAt file)

/-- What a file holds. -/
def parse (file : ByteArray) : Option ZipFile := do
  let offset ← findEnd? file
  let records ← recordsAt file (← numberAt file (offset + 16) 4) (← numberAt file (offset + 10) 2)
  let comment ← bytesAt file (offset + 22) (file.size - offset - 22)
  return { records, comment }

/-- A number in `width` bytes, least significant byte first. -/
def number (width value : Nat) : Bytes :=
  (List.range width).map fun place => UInt8.ofNat (value >>> (8 * place))

/-- What the two records of an entry have in common. -/
def sharedForm (record : ZipRecord) : Bytes :=
  number 2 20 ++ number 2 record.writtenFlags ++ number 2 record.method ++
    number 2 record.time ++ number 2 record.date ++ number 4 record.check.toNat ++
    number 4 record.data.length ++ number 4 record.size ++ number 2 record.name.length

/-- An entry with its data. -/
def localForm (record : ZipRecord) : Bytes :=
  number 4 localMark ++ sharedForm record ++ number 2 0 ++ record.name ++ record.data

/-- The record in the directory of an entry whose local record is at an offset. -/
def directoryForm (record : ZipRecord) (offset : Nat) : Bytes :=
  number 4 directoryMark ++ number 2 record.system ++ sharedForm record ++
    number 2 record.extra.length ++ number 2 record.comment.length ++ number 2 0 ++
    number 2 record.internal ++ number 4 record.external ++ number 4 offset ++
    record.name ++ record.extra ++ record.comment

/-- The directory of entries of which the first is at an offset. -/
def directoryFrom (offset : Nat) : List ZipRecord → Bytes
  | [] => []
  | record :: others =>
    directoryForm record offset ++ directoryFrom (offset + (localForm record).length) others

/-- The form of a zip file. -/
def render (file : ZipFile) : Bytes :=
  let entries := file.records.flatMap localForm
  let directory := directoryFrom 0 file.records
  entries ++ directory ++ number 4 endMark ++ number 2 0 ++ number 2 0 ++
    number 2 file.records.length ++ number 2 file.records.length ++
    number 4 directory.length ++ number 4 entries.length ++
    number 2 file.comment.length ++ file.comment

/-- The archive that a file holds, if all of its entries can be read. -/
def toArchive? (file : ZipFile) : Option Archive :=
  file.records.mapM ZipRecord.toEntry?

/-- The file with the contents of an archive that has the same entries. -/
def update (file : ZipFile) (archive : Archive) : ZipFile :=
  { file with records := List.zipWith (fun record entry =>
      if record.contents? = some entry.contents then record
      else record.withContents entry.contents) file.records archive }

end ZipFile

end AccessWidener
