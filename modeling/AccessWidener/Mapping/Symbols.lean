import AccessWidener.Directive.Basic

/-!
# Symbol Lookups

A symbol lookup takes the names of one namespace to those of another. A miss means that the symbol
is unknown where the names come from.

## Main definitions

* `Symbols`: Lookups of classes and members.
* `Symbols.identity`: The lookups that take every symbol to itself.
* `Symbols.rename?`: A target under its new names.
-/

namespace AccessWidener

/-- Lookups from one namespace into another. -/
structure Symbols where
  resolveType : String → Option String
  resolveMember : MemberKind → MemberRef → Option Signature

namespace Symbols

/-- The lookups that take every symbol to itself. -/
def identity : Symbols where
  resolveType := some
  resolveMember _ ref := some ref.signature

/-- A target under its new names. For a member both its owner and the member have to resolve. -/
def rename? (symbols : Symbols) : Target → Option Target
  | .type owner => (symbols.resolveType owner).map .type
  | .member kind ref => do
    let owner ← symbols.resolveType ref.owner
    let signature ← symbols.resolveMember kind ref
    return .member kind { owner, signature }

end Symbols

end AccessWidener
