import Std.Data.ExtTreeMap
import AccessWidener.Bytes

/-!
# Paths

A path keeps the spelling it was given and is compared by its components. Repeated slashes, a final
slash and inner `.` components make no difference; a leading `.` is a component of its own.

## Main definitions

* `PathComponent`: A component, ordered with the root first, then `.`, `..` and names.
* `Path`, `Path.components`: A spelling and what it is compared by.
* `Path.join`, `Path.extension?`: Children of a directory, and what follows the last point.
-/

namespace AccessWidener

/-- One step of a path. -/
inductive PathComponent where
  | root
  | current
  | parent
  | name (text : String)
deriving DecidableEq, Repr

namespace PathComponent

/-- The place of a component among those of other kinds. -/
def rank : PathComponent → Nat
  | root => 0
  | current => 1
  | parent => 2
  | name _ => 3

/-- The name that a component carries. -/
def label : PathComponent → String
  | name text => text
  | _ => ""

/-- How a component is spelled between slashes. -/
def spelling : PathComponent → String
  | root => ""
  | current => "."
  | parent => ".."
  | name text => text

/-- The component that a part of a path spells, not being empty or `.`. -/
def ofPart (part : String) : PathComponent :=
  if part = ".." then parent else name part

/-- Components are ordered by kind, names among themselves by text. -/
instance : Ord PathComponent where
  compare := compareLex (compareOn rank) (compareOn label)

instance : Std.TransOrd PathComponent :=
  inferInstanceAs (Std.TransCmp (compareLex (compareOn rank) (compareOn label)))

instance : Std.LawfulEqOrd PathComponent where
  eq_of_compare {a b} h := by
    have h : compareLex (compareOn rank) (compareOn label) a b = .eq := h
    cases a <;> cases b <;> simp_all [compareLex_eq_eq, compareOn, rank, label]

end PathComponent

/-- A path as it was spelled. -/
structure Path where
  spelling : String
deriving DecidableEq, Repr

namespace Path

/-- The parts of a path between its slashes. -/
def parts (path : Path) : List String :=
  (path.spelling.toList.splitOn '/').map String.ofList

/-- Whether a part names something: neither nothing nor the directory it stands in. -/
def isSignificant (part : String) : Bool :=
  part ≠ "" && part ≠ "."

/-- What a path starts with: the root, an explicit `.`, or neither. -/
def lead (path : Path) : List PathComponent :=
  match path.parts with
  | "" :: _ :: _ => [.root]
  | "." :: _ => [.current]
  | _ => []

/-- The components that a path is compared by. -/
def components (path : Path) : List PathComponent :=
  path.lead ++ (path.parts.filter isSignificant).map PathComponent.ofPart

/-- A path that has the given components. -/
def ofComponents : List PathComponent → Path
  | .root :: components => ⟨"/" ++ "/".intercalate (components.map PathComponent.spelling)⟩
  | components => ⟨"/".intercalate (components.map PathComponent.spelling)⟩

/-- A path extended by another spelling. -/
def join (path : Path) (child : String) : Path :=
  if path.spelling = "" || path.spelling.toList.getLast? = some '/' then
    ⟨path.spelling ++ child⟩
  else ⟨path.spelling ++ "/" ++ child⟩

/-- The final name of a path. -/
def fileName? (path : Path) : Option String :=
  match path.components.getLast? with
  | some (.name text) => some text
  | _ => none

/-- What follows the last point of the final name. A point in first place starts no extension. -/
def extension? (path : Path) : Option String :=
  path.fileName?.bind fun name =>
    let reversed := name.toList.reverse
    match reversed.dropWhile (· ≠ '.') with
    | '.' :: _ :: _ => some (String.ofList (reversed.takeWhile (· ≠ '.')).reverse)
    | _ => none

/-- Whether a spelling can only name a directory. -/
def requiresDirectory (path : Path) : Bool :=
  match path.parts.getLast? with
  | some part => !isSignificant part || part = ".."
  | none => false

end Path

end AccessWidener
