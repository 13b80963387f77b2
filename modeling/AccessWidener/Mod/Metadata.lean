import AccessWidener.Mod.Platform
import AccessWidener.Text.Json

/-!
# Mod Metadata

A mod archive holds a JSON file that names the mod and may say where its directive file is. There
are two schemas. A record is an object in which unknown members are passed over and known ones
occur once, or an array of exactly its known members in order. Only the location may be missing.

## Main definitions

* `Schema`: The two kinds of metadata, and the archive entry of each.
* `ModMetadata`: The name of a mod and the location of its directive file.
* `ModMetadata.parse`: The metadata that a byte string spells.
-/

namespace AccessWidener

/-- A kind of metadata file. -/
inductive Schema where
  | fabric
  | quilt
deriving DecidableEq, Repr

/-- The archive entry that holds the metadata of a schema. -/
def Schema.entryName : Schema → String
  | fabric => "fabric.mod.json"
  | quilt => "quilt.mod.json"

/-- The name of a mod and the location of its directive file inside its archive. -/
structure ModMetadata where
  id : String
  location : Option String
deriving DecidableEq, Repr

namespace ModMetadata

/-- The values of the members of a record. Members not listed in `names` are passed over, but every
    name has to be text. -/
def recordValues (names : List String) : Json → Option (List (Option Json))
  | .array elements =>
    if elements.length = names.length then some (elements.map some) else none
  | .object members => do
    let named ← members.mapM fun (name?, value) => name?.map fun name => (name, value)
    names.mapM fun name =>
      match named.filter (·.1 = name) with
      | [] => some none
      | [(_, value)] => some (some value)
      | _ => none
  | _ => none

/-- The text of a string. -/
def textOf : Json → Option String
  | .string text? => text?
  | _ => none

/-- The text of a member that has to be there. -/
def requiredText (value? : Option Json) : Option String :=
  value?.bind textOf

/-- A location: a text, or nothing. -/
def singleLocation : Option Json → Option (Option String)
  | none | some .null => some none
  | some value => (textOf value).map some

/-- A location, of which there may be several; the first one counts. -/
def firstLocation : Option Json → Option (Option String)
  | some (.array elements) => (elements.mapM textOf).map List.head?
  | value? => singleLocation value?

/-- The metadata in the schema with the name at the top level. -/
def ofFabric (json : Json) : Option ModMetadata := do
  match ← recordValues ["id", "accessWidener"] json with
  | [id?, location?] =>
    return { id := ← requiredText id?, location := ← singleLocation location? }
  | _ => none

/-- The metadata in the schema with the name inside a loader record. -/
def ofQuilt (json : Json) : Option ModMetadata := do
  match ← recordValues ["quilt_loader", "access_widener"] json with
  | [some loader, location?] =>
    match ← recordValues ["id"] loader with
    | [id?] => return { id := ← requiredText id?, location := ← firstLocation location? }
    | _ => none
  | _ => none

/-- The metadata that a byte string spells. -/
def parse (schema : Schema) (bytes : Bytes) : Option ModMetadata := do
  let json ← Json.parse bytes
  match schema with
  | .fabric => ofFabric json
  | .quilt => ofQuilt json

end ModMetadata

end AccessWidener
