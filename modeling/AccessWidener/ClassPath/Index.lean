import Std.Data.ExtTreeSet
import AccessWidener.ClassFile.EntryName
import AccessWidener.ClassFile.Layout
import AccessWidener.Mapping.Fault

/-!
# Class Path Indices

An index records the supertypes and the declared members of the classes on a class path. The first
class indexed under a name stays. The hierarchy of a class lists it and its supertypes breadth
first; a class that is not indexed ends its branch.

## Main definitions

* `ClassInfo`: What is recorded of one class.
* `ClassIndex`, `ClassIndex.insert`: Classes by name.
* `ClassIndex.hierarchy`: A class and its supertypes, nearest first.
* `ClassIndex.addPath`, `ClassIndex.ofPaths`: Indexing the archives of a class path.
-/

namespace AccessWidener

/-- The supertypes and declared members of a class. -/
structure ClassInfo where
  superName : Option String
  interfaces : List String
  methods : Std.ExtTreeSet Signature
  fields : Std.ExtTreeSet Signature

namespace ClassInfo

/-- What is recorded of a class file. -/
def ofLayout (layout : ClassLayout) : ClassInfo where
  superName := layout.superName
  interfaces := layout.interfaces
  methods := .ofList (layout.methods.map (·.signature))
  fields := .ofList (layout.fields.map (·.signature))

/-- The superclass and then the interfaces. -/
def supertypes (info : ClassInfo) : List String :=
  info.superName.toList ++ info.interfaces

/-- The declared members of a kind. -/
def members (info : ClassInfo) : MemberKind → Std.ExtTreeSet Signature
  | .method => info.methods
  | .field => info.fields

/-- Whether a member is declared. -/
def declares (info : ClassInfo) (kind : MemberKind) (signature : Signature) : Bool :=
  (info.members kind).contains signature

end ClassInfo

/-- What is recorded of the classes on a class path. -/
structure ClassIndex where
  classes : Std.ExtTreeMap String ClassInfo := ∅

namespace ClassIndex

/-- The index without classes. -/
def empty : ClassIndex := {}

/-- What is recorded of the class with a name. -/
def get? (index : ClassIndex) (name : String) : Option ClassInfo :=
  index.classes[name]?

/-- Whether a class is indexed. -/
def contains (index : ClassIndex) (name : String) : Bool :=
  index.classes.contains name

/-- The number of classes. -/
def size (index : ClassIndex) : Nat :=
  index.classes.size

/-- The index with one more class, unless its name is taken. -/
def insert (index : ClassIndex) (layout : ClassLayout) : ClassIndex where
  classes := index.classes.insertIfNew layout.name (.ofLayout layout)

/-- The direct supertypes of a class, none if it is not indexed. -/
def supertypes (index : ClassIndex) (name : String) : List String :=
  match index.get? name with
  | some info => info.supertypes
  | none => []

/-- The indexed names that do not occur in a list. -/
def unseen (index : ClassIndex) (seen : List String) : List String :=
  index.classes.keys.filter (! seen.contains ·)

/-- Listing one more name, an indexed one, leaves fewer indexed names unlisted. -/
theorem length_unseen_append_lt {index : ClassIndex} {seen : List String} {name : String}
    (hIndexed : name ∈ index.classes) (hNew : name ∉ seen) :
    (index.unseen (seen ++ [name])).length < (index.unseen seen).length := by
  have hMem : name ∈ index.classes.keys := Std.ExtTreeMap.mem_keys.mpr hIndexed
  have hEq : index.unseen (seen ++ [name]) = (index.unseen seen).filter (· ≠ name) := by
    simp only [unseen, List.filter_filter]
    congr 1
    funext candidate
    by_cases h : candidate = name <;> simp [h]
  rw [hEq]
  refine Nat.lt_of_le_of_ne (List.length_filter_le ..) fun hLength => ?_
  have hAll := List.length_filter_eq_length_iff.mp hLength name
    (by simp [unseen, hMem, hNew])
  simp at hAll

/-- Listing a name never adds to the indexed names that are unlisted. -/
theorem unseen_append_of_not_mem {index : ClassIndex} {seen : List String} {name : String}
    (hNot : name ∉ index.classes) : index.unseen (seen ++ [name]) = index.unseen seen := by
  apply List.filter_congr
  intro candidate hMem
  have hNe : candidate ≠ name := by
    rintro rfl
    exact hNot (Std.ExtTreeMap.mem_keys.mp hMem)
  simp [hNe]

/-- A class that is not indexed has no known supertypes. -/
theorem supertypes_of_not_mem {index : ClassIndex} {name : String}
    (hNot : name ∉ index.classes) : index.supertypes name = [] := by
  have hGet : index.classes[name]? = none := Std.ExtTreeMap.getElem?_eq_none hNot
  simp [supertypes, get?, hGet]

/-- The names reached from a queue, in breadth-first order, after those already seen. A name is
    listed when it leaves the queue for the first time, and its supertypes join the end of the
    queue. -/
def reachFrom (index : ClassIndex) (seen queue : List String) : List String :=
  match queue with
  | [] => seen
  | name :: rest =>
    if name ∈ seen then reachFrom index seen rest
    else reachFrom index (seen ++ [name]) (rest ++ index.supertypes name)
termination_by ((index.unseen seen).length, queue.length)
decreasing_by
  · exact Prod.Lex.right _ (by simp)
  · by_cases hIndexed : name ∈ index.classes
    · exact Prod.Lex.left _ _ (length_unseen_append_lt hIndexed ‹name ∉ seen›)
    · rw [unseen_append_of_not_mem hIndexed]
      exact Prod.Lex.right _ (by simp [supertypes_of_not_mem hIndexed])

/-- A class followed by its supertypes, breadth first, each listed once. -/
def hierarchy (index : ClassIndex) (name : String) : List String :=
  index.reachFrom [] [name]

/-- The index with the class of an archive entry. Entries that are no readable class files are
    passed over. -/
def addEntry (index : ClassIndex) (entry : ArchiveEntry) : ClassIndex :=
  if entry.isDirectory || (classAtPath? entry.name).isNone then index
  else
    match ClassLayout.parse entry.contents with
    | .ok layout => index.insert layout
    | .error _ => index

/-- The index with the classes of an archive. -/
def addArchive (index : ClassIndex) (archive : Archive) : ClassIndex :=
  archive.foldl addEntry index

/-- The index with the classes of the archive that a path leads to. Missing paths and directories
    are passed over; a plain file is refused. -/
def addPath (tree : FileTree) (index : ClassIndex) (path : Path) : Except MappingFault ClassIndex :=
  match tree.lookup path with
  | .ok (.archive entries) => .ok (index.addArchive entries)
  | .ok (.file _) => .error (.archive path)
  | _ => .ok index

/-- The index of a class path, read in order. -/
def ofPaths (tree : FileTree) (paths : List Path) : Except MappingFault ClassIndex :=
  paths.foldlM (addPath tree) empty

end ClassIndex

end AccessWidener
