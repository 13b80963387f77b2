import AccessWidener.Bytes

/-!
# Archives

An archive is the list of its entries. Compression is not modelled: an entry holds its contents,
and the attributes that a copy has to preserve.

## Main definitions

* `Timestamp`: A date and time of day.
* `ArchiveEntry`: One entry of an archive.
* `Archive`, `Archive.contents?`: Entries in order, and the contents stored under a name.
-/

namespace AccessWidener

/-- A date and time of day. -/
structure Timestamp where
  year : Nat := 1980
  month : Nat := 1
  day : Nat := 1
  hour : Nat := 0
  minute : Nat := 0
  second : Nat := 0
deriving DecidableEq, Repr

/-- One entry of an archive. A name that ends in a slash is that of a directory. -/
structure ArchiveEntry where
  name : String
  contents : Bytes := []
  stored : Bool := false
  mode : Nat := 0o644
  modified : Timestamp := {}
deriving DecidableEq, Repr

/-- Whether an entry is a directory, judged by its name. -/
def ArchiveEntry.isDirectory (entry : ArchiveEntry) : Bool :=
  entry.name.toList.getLast? = some '/' || entry.name.toList.getLast? = some '\\'

/-- The entries of an archive, in order. -/
abbrev Archive := List ArchiveEntry

/-- The contents stored under a name. -/
def Archive.contents? (archive : Archive) (name : String) : Option Bytes :=
  (archive.find? (·.name = name)).map (·.contents)

end AccessWidener
