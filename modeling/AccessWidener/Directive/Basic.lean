import Std.Data.ExtTreeMap
import AccessWidener.Text.Lines

/-!
# Access Directives

A directive asks that one declaration of a class file become more visible. It names a target (a
class, or a method or field of a class), the level of access wanted, and whether the request is
transitive, that is, exported to the projects that depend on the one declaring it. Names are
spelled in one of four naming schemes, called namespaces.

## Main definitions

* `Namespace`, `Access`, `MemberKind`, `TargetKind`: The closed vocabularies of a directive.
* `AccessSet`: A set of access levels.
* `Signature`, `MemberRef`, `Target`: What a directive points at.
* `Directive`: A target, a level and a transitive mark.

## Theorems

* `AccessSet.ext_contains`: Sets with the same levels are equal.
* `AccessSet.contains_union`, `AccessSet.contains_insert`: Membership after an operation.
-/

namespace AccessWidener

/-- A naming scheme that an artifact is compiled against. -/
inductive Namespace where
  | official
  | intermediary
  | named
  | srg
deriving DecidableEq, Repr

namespace Namespace

/-- Every namespace. -/
def all : List Namespace := [official, intermediary, named, srg]

/-- The word for a namespace in directive headers and mapping files. -/
def token : Namespace → String
  | official => "official"
  | intermediary => "intermediary"
  | named => "named"
  | srg => "srg"

/-- The namespace that a word stands for. -/
def ofToken? (word : String) : Option Namespace :=
  all.find? (·.token = word)

end Namespace

/-- The two kinds of class member that can be targeted. -/
inductive MemberKind where
  | method
  | field
deriving DecidableEq, Repr

/-- The word for a kind of member. -/
def MemberKind.token : MemberKind → String
  | .method => "method"
  | .field => "field"

/-- The kinds of declaration that can be targeted. -/
inductive TargetKind where
  | type
  | member (kind : MemberKind)
deriving DecidableEq, Repr

namespace TargetKind

/-- Every kind of target. -/
def all : List TargetKind := [type, member .method, member .field]

/-- The word for a kind of target; a type is written `class`. -/
def token : TargetKind → String
  | type => "class"
  | member kind => kind.token

/-- The kind of target that a word stands for. -/
def ofToken? (word : String) : Option TargetKind :=
  all.find? (·.token = word)

/-- The place of a kind in the order of targets: types, then methods, then fields. -/
def rank : TargetKind → Nat
  | type => 0
  | member .method => 1
  | member .field => 2

end TargetKind

/-- A level of access, from the least to the most permissive. -/
inductive Access where
  | accessible
  | extendable
  | mutable
deriving DecidableEq, Repr

namespace Access

/-- Every level, least permissive first. -/
def all : List Access := [accessible, extendable, mutable]

/-- The word for a level. -/
def token : Access → String
  | accessible => "accessible"
  | extendable => "extendable"
  | mutable => "mutable"

/-- The level that a word stands for. -/
def ofToken? (word : String) : Option Access :=
  all.find? (·.token = word)

/-- Whether a level may be asked for a kind of target: fields cannot be extended, and only fields
    can be made mutable. -/
def appliesTo : Access → TargetKind → Bool
  | accessible, _ => true
  | extendable, kind => kind ≠ .member .field
  | mutable, kind => kind = .member .field

end Access

/-- A set of access levels. -/
structure AccessSet where
  accessible : Bool := false
  extendable : Bool := false
  mutable : Bool := false
deriving DecidableEq, Repr

namespace AccessSet

/-- The set without levels. -/
def empty : AccessSet := {}

/-- Whether a level is in the set. -/
def contains (levels : AccessSet) : Access → Bool
  | .accessible => levels.accessible
  | .extendable => levels.extendable
  | .mutable => levels.mutable

/-- The set with one more level. -/
def insert (levels : AccessSet) : Access → AccessSet
  | .accessible => { levels with accessible := true }
  | .extendable => { levels with extendable := true }
  | .mutable => { levels with mutable := true }

/-- The set of a single level. -/
def singleton (access : Access) : AccessSet :=
  empty.insert access

/-- The levels of either set. -/
def union (left right : AccessSet) : AccessSet where
  accessible := left.accessible || right.accessible
  extendable := left.extendable || right.extendable
  mutable := left.mutable || right.mutable

/-- The levels in the set, least permissive first. -/
def toList (levels : AccessSet) : List Access :=
  Access.all.filter levels.contains

/-- Whether no level is in the set. -/
def isEmpty (levels : AccessSet) : Bool :=
  levels = empty

/-- The most permissive level in the set. -/
def widest? (levels : AccessSet) : Option Access :=
  levels.toList.getLast?

/-- Sets with the same levels are equal. -/
theorem ext_contains {left right : AccessSet}
    (h : ∀ access, left.contains access = right.contains access) : left = right := by
  cases left
  cases right
  have h₁ := h .accessible
  have h₂ := h .extendable
  have h₃ := h .mutable
  simp_all [contains]

@[simp]
theorem contains_empty (access : Access) : empty.contains access = false := by
  cases access <;> rfl

@[simp]
theorem contains_insert (levels : AccessSet) (added access : Access) :
    (levels.insert added).contains access = (decide (access = added) || levels.contains access) := by
  cases added <;> cases access <;> simp [insert, contains]

@[simp]
theorem contains_singleton (added access : Access) :
    (singleton added).contains access = decide (access = added) := by
  simp [singleton]

@[simp]
theorem contains_union (left right : AccessSet) (access : Access) :
    (left.union right).contains access = (left.contains access || right.contains access) := by
  cases access <;> rfl

end AccessSet

/-- The name and descriptor that tell the members of a class apart. -/
structure Signature where
  name : String
  descriptor : String
deriving DecidableEq, Repr

/-- Signatures are ordered by name, then by descriptor. -/
instance : Ord Signature where
  compare := compareLex (compareOn (·.name)) (compareOn (·.descriptor))

instance : Std.TransOrd Signature :=
  inferInstanceAs (Std.TransCmp (compareLex (compareOn Signature.name) (compareOn (·.descriptor))))

instance : Std.LawfulEqOrd Signature where
  eq_of_compare {a b} h := by
    have h : compareLex (compareOn Signature.name) (compareOn (·.descriptor)) a b = .eq := h
    cases a
    cases b
    simp_all [compareLex_eq_eq, compareOn]

/-- A method or field of a class. -/
structure MemberRef where
  owner : String
  signature : Signature
deriving DecidableEq, Repr

/-- Members are ordered by owner, then by signature. -/
instance : Ord MemberRef where
  compare := compareLex (compareOn (·.owner)) (compareOn (·.signature))

instance : Std.TransOrd MemberRef :=
  inferInstanceAs (Std.TransCmp (compareLex (compareOn MemberRef.owner) (compareOn (·.signature))))

instance : Std.LawfulEqOrd MemberRef where
  eq_of_compare {a b} h := by
    have h : compareLex (compareOn MemberRef.owner) (compareOn (·.signature)) a b = .eq := h
    cases a
    cases b
    simp_all [compareLex_eq_eq, compareOn]

/-- The declaration that a directive widens. -/
inductive Target where
  | type (owner : String)
  | member (kind : MemberKind) (ref : MemberRef)
deriving DecidableEq, Repr

namespace Target

/-- The kind of declaration. -/
def kind : Target → TargetKind
  | type _ => .type
  | member kind _ => .member kind

/-- The class that is widened or whose member is widened. -/
def owner : Target → String
  | type owner => owner
  | member _ ref => ref.owner

/-- The signature of a member; a type has none. -/
def signature? : Target → Option Signature
  | type _ => none
  | member _ ref => some ref.signature

/-- The signature that places a target among those of its kind and owner. -/
def orderSignature (target : Target) : Signature :=
  target.signature?.getD ⟨"", ""⟩

/-- The words of a target in a directive line: its kind, owner, name and descriptor. -/
def words : Target → List String
  | type owner => ["class", owner]
  | member kind ref => [kind.token, ref.owner, ref.signature.name, ref.signature.descriptor]

/-- The text that shows a target in messages. -/
def display (target : Target) : String :=
  " ".intercalate target.words

/-- Targets are ordered by kind, then by owner, name and descriptor. -/
instance : Ord Target where
  compare := compareLex (compareOn (·.kind.rank))
    (compareLex (compareOn owner) (compareOn orderSignature))

instance : Std.TransOrd Target :=
  inferInstanceAs (Std.TransCmp (compareLex (compareOn (·.kind.rank))
    (compareLex (compareOn owner) (compareOn orderSignature))))

instance : Std.LawfulEqOrd Target where
  eq_of_compare {a b} h := by
    have h : compareLex (compareOn (·.kind.rank))
      (compareLex (compareOn owner) (compareOn orderSignature)) a b = .eq := h
    simp only [compareLex_eq_eq, compareOn, Std.LawfulEqOrd.compare_eq_iff_eq] at h
    obtain ⟨hKind, hOwner, hSignature⟩ := h
    cases a with
    | type _ =>
      cases b with
      | type _ => simpa [owner] using hOwner
      | member kind _ => cases kind <;> simp [kind, TargetKind.rank] at hKind
    | member kind₁ ref₁ =>
      cases b with
      | type _ => cases kind₁ <;> simp [kind, TargetKind.rank] at hKind
      | member kind₂ ref₂ =>
        cases ref₁
        cases ref₂
        cases kind₁ <;> cases kind₂ <;>
          simp_all [kind, TargetKind.rank, owner, orderSignature, signature?]

end Target

/-- A request to widen one target to one level. -/
structure Directive where
  target : Target
  access : Access
  transitive : Bool
deriving DecidableEq, Repr

end AccessWidener
