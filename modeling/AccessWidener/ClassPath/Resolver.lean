import AccessWidener.ClassPath.Index
import AccessWidener.Mapping.Tiny

/-!
# Resolving Symbols

A class resolves when it is mapped or indexed. A member resolves when it is mapped for some class in
the hierarchy of its owner, or when such a class declares it, in which case it keeps its name. A
mapping anywhere in the hierarchy wins over a nearer declaration.

A resolver owns whatever its lookups need and has to be finished once it is no longer used. An
engine builds resolvers.

## Main definitions

* `Resolver`: The lookups of a resolver, and its end.
* `Engine`: What builds resolvers.
* `ClassPathResolver`: A mapping table with a class path index behind it.
* `tinyEngine`: The engine of a mapping file.
-/

namespace AccessWidener

/-- A type of resolvers: values that answer lookups until they are finished. Finishing may fail,
    and leaves a resolver behind either way. -/
class Resolver (ρ : Type) where
  symbols : ρ → Symbols
  finish : ρ → ρ × Except MappingFault Unit

/-- What builds resolvers between two namespaces from a class path. -/
structure Engine (ρ : Type) where
  build : FileTree → Namespace → Namespace → List Path → Except MappingFault ρ

/-- A mapping table with a class path index behind it. -/
structure ClassPathResolver where
  table : MappingTable
  index : ClassIndex

namespace ClassPathResolver

/-- The new name of a class; an indexed class that is not mapped keeps its name. -/
def resolveType (resolver : ClassPathResolver) (name : String) : Option String :=
  match resolver.table.type? name with
  | some mapped => some mapped
  | none => if resolver.index.contains name then some name else none

/-- Whether a class declares a member. -/
def declares (index : ClassIndex) (kind : MemberKind) (owner : String) (signature : Signature) :
    Bool :=
  (index.get? owner).any (·.declares kind signature)

/-- The first new name of a member among those that it has for the given owners. -/
def firstMapped? (table : MappingTable) (kind : MemberKind) (signature : Signature)
    (owners : List String) : Option String :=
  owners.findSome? fun owner => table.member? kind { owner, signature }

/-- The name of a member after resolution. A mapping for the owner itself needs no index; any other
    class is looked at only if the owner is indexed. -/
def resolveName (resolver : ClassPathResolver) (kind : MemberKind) (ref : MemberRef) :
    Option String :=
  match resolver.table.member? kind ref with
  | some mapped => some mapped
  | none =>
    if !resolver.index.contains ref.owner then none
    else
      let owners := resolver.index.hierarchy ref.owner
      match firstMapped? resolver.table kind ref.signature owners with
      | some mapped => some mapped
      | none =>
        if owners.any (declares resolver.index kind · ref.signature) then some ref.signature.name
        else none

/-- A member after resolution, with its descriptor renamed. -/
def resolveMember (resolver : ClassPathResolver) (kind : MemberKind) (ref : MemberRef) :
    Option Signature :=
  (resolver.resolveName kind ref).map
    (resolver.table.renamedSignature ref.signature.descriptor)

/-- Finishing lets go of the index. -/
instance : Resolver ClassPathResolver where
  symbols resolver := { resolveType := resolver.resolveType, resolveMember := resolver.resolveMember }
  finish resolver := ({ resolver with index := .empty }, .ok ())

end ClassPathResolver

/-- The engine of a mapping file in the Tiny format. The mappings are read before the class
    path. -/
def tinyEngine (text : List Char) : Engine ClassPathResolver where
  build tree source target classPath := do
    let table ← MappingTable.ofTiny text source target
    let index ← ClassIndex.ofPaths tree classPath
    return { table, index }

end AccessWidener
