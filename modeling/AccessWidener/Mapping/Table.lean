import AccessWidener.Mapping.Descriptor
import AccessWidener.Mapping.Symbols

/-!
# Mapping Tables

A mapping table takes class, method and field names from one namespace into another. Members
are looked up by owner, name and descriptor, all spelled in the first namespace.

## Main definitions

* `MappingTable`: New names by old ones.
* `MappingTable.type?`, `MappingTable.member?`: The new name of a class or a member.
* `MappingTable.rename`: A descriptor with its classes renamed.
* `MappingTable.symbols`: The lookups that a table alone answers.
-/

namespace AccessWidener

/-- The new names of classes and members, by their old ones. -/
structure MappingTable where
  source : Option Namespace := none
  target : Option Namespace := none
  types : Std.ExtTreeMap String String := ∅
  methods : Std.ExtTreeMap MemberRef String := ∅
  fields : Std.ExtTreeMap MemberRef String := ∅

namespace MappingTable

/-- The table from one namespace into another that knows no names. -/
def between (source target : Namespace) : MappingTable :=
  { source := some source, target := some target }

/-- The new names of the members of a kind. -/
def members (table : MappingTable) : MemberKind → Std.ExtTreeMap MemberRef String
  | .method => table.methods
  | .field => table.fields

/-- The table with a class renamed. A later new name for the same class replaces it. -/
def addType (table : MappingTable) (name renamed : String) : MappingTable :=
  { table with types := table.types.insert name renamed }

/-- The table with a member renamed. A later new name for the same member replaces it. -/
def addMember (table : MappingTable) (kind : MemberKind) (ref : MemberRef) (renamed : String) :
    MappingTable :=
  match kind with
  | .method => { table with methods := table.methods.insert ref renamed }
  | .field => { table with fields := table.fields.insert ref renamed }

/-- The new name of a class. -/
def type? (table : MappingTable) (name : String) : Option String :=
  table.types[name]?

/-- The new name of a member. -/
def member? (table : MappingTable) (kind : MemberKind) (ref : MemberRef) : Option String :=
  (table.members kind)[ref]?

/-- A descriptor with the classes that it refers to renamed. -/
def rename (table : MappingTable) (descriptor : String) : String :=
  Descriptor.rename table.type? descriptor

/-- The signature of a member under a new name, its descriptor renamed. -/
def renamedSignature (table : MappingTable) (descriptor name : String) : Signature where
  name
  descriptor := table.rename descriptor

/-- A table alone resolves exactly the symbols that it renames. -/
def symbols (table : MappingTable) : Symbols where
  resolveType := table.type?
  resolveMember kind ref :=
    (table.member? kind ref).map (table.renamedSignature ref.signature.descriptor)

end MappingTable

end AccessWidener
