import AccessWidener.ClassFile.EntryName
import AccessWidener.ClassFile.Flags
import AccessWidener.ClassFile.Patch
import AccessWidener.Directive.Set
import AccessWidener.Pipeline.Fault

/-!
# Widening

A widener applies a directive set to class files and archives. It plans ahead: for every class that
is a target or owns one, it notes the access asked for the class, that asked for each member, and
the access to the class that a request for a member implies. A class file is then widened in place:
its own flag word, the word of the first member declared with each planned signature, and the words
of the entries that list a planned class as nested.

An archive is widened entry by entry, in two passes. The first one finds the entries that change;
entries whose class cannot be concerned are not read, and an entry that cannot be read leaves the
whole archive alone. The second one puts the changed contents in their places.

## Main definitions

* `widenClass`, `widenMethod`, `widenField`: The rules for flag words.
* `ClassPlan`, `DirectiveSet.plans`: What is asked of each class, by name.
* `MemberOrder`: An order in which the members of a plan may come.
* `Widener`, `Widener.ofSet`: A directive set made ready to be applied.
* `Widener.patchClass`, `Widener.transformClass`: Class files.
* `Widener.touches`, `Widener.patches`, `Widener.apply`: Archives.
-/

namespace AccessWidener

open Flags

/-- A class that is granted any access becomes public, and not final if it may be extended. -/
def widenClass (flags : UInt16) (access : AccessSet) : UInt16 :=
  if access.isEmpty then flags
  else if access.extendable then removeFinal (makePublic flags)
  else makePublic flags

/-- An accessible method becomes public, and final if it was private, so that no subclass overrides
    it by accident; methods of interfaces are not made final. An extendable method becomes at least
    protected and is not final. -/
def widenMethod (flags : UInt16) (name : String) (access : AccessSet) (inInterface : Bool) :
    UInt16 :=
  let guarded := if inInterface then flags else makeFinalIfPrivate flags name
  let visible := if access.accessible then makePublic guarded else flags
  if access.extendable then removeFinal (makeProtected visible) else visible

/-- An accessible field becomes public, and a mutable one is not final. -/
def widenField (flags : UInt16) (access : AccessSet) : UInt16 :=
  let visible := if access.accessible then makePublic flags else flags
  if access.mutable then removeFinal visible else visible

/-- The flags of a member with the access that it is granted. -/
def widenMember (kind : MemberKind) (flags : UInt16) (name : String) (access : AccessSet)
    (inInterface : Bool) : UInt16 :=
  match kind with
  | .method => widenMethod flags name access inInterface
  | .field => widenField flags access

/-- Whether a class is an interface. -/
def ClassLayout.isInterface (layout : ClassLayout) : Bool :=
  has layout.access.flags interfaceBit

/-- What is asked of one class and of its members. -/
structure ClassPlan where
  access : AccessSet := .empty
  methods : Std.ExtTreeMap Signature AccessSet := ∅
  fields : Std.ExtTreeMap Signature AccessSet := ∅
deriving DecidableEq

/-- An order in which the members of a plan may come. None is promised, so whatever a plan does has
    to come out the same in each. -/
structure MemberOrder where
  arrange : List (Signature × AccessSet) → List (Signature × AccessSet)
  arrange_perm : ∀ members, (arrange members).Perm members

/-- Members come by signature. -/
def MemberOrder.sorted : MemberOrder where
  arrange := id
  arrange_perm := .refl

namespace ClassPlan

/-- The members of one kind with what is asked of them. -/
def members (plan : ClassPlan) : MemberKind → Std.ExtTreeMap Signature AccessSet
  | .method => plan.methods
  | .field => plan.fields

/-- Members with access added to what one of them had. -/
def addMember (members : Std.ExtTreeMap Signature AccessSet) (signature : Signature)
    (access : AccessSet) : Std.ExtTreeMap Signature AccessSet :=
  members.alter signature fun held => some ((held.getD .empty).union access)

/-- The plan with one more target. A method can be overridden only if its class can be extended,
    and any member can be reached only if its class can. -/
def add (plan : ClassPlan) (access : AccessSet) : Target → ClassPlan
  | .type _ => { plan with access := plan.access.union access }
  | .member .method ref =>
    { plan with
      access := plan.access.insert (if access.extendable then .extendable else .accessible)
      methods := addMember plan.methods ref.signature access }
  | .member .field ref =>
    { plan with
      access := plan.access.insert .accessible
      fields := addMember plan.fields ref.signature access }

/-- The new word of the first member declared with a signature, if there is one. -/
def memberWrite (layout : ClassLayout) (kind : MemberKind) (entry : Signature × AccessSet) :
    Option FlagSite :=
  (layout.member? kind entry.1).map fun member =>
    { member.access with
      flags := widenMember kind member.access.flags entry.1.name entry.2 layout.isInterface }

/-- The new word of a class. -/
def typeWrite (plan : ClassPlan) (site : FlagSite) : FlagSite :=
  { site with flags := widenClass site.flags plan.access }

/-- The new words of a class file: that of the class, and those of its methods and fields. -/
def writes (plan : ClassPlan) (order : MemberOrder) (layout : ClassLayout) : List FlagSite :=
  plan.typeWrite layout.access ::
    ((order.arrange plan.methods.toList).filterMap (memberWrite layout .method) ++
      (order.arrange plan.fields.toList).filterMap (memberWrite layout .field))

end ClassPlan

/-- Plans with the target of a grant added to the plan of its owner. -/
def addGrant (plans : Std.ExtTreeMap String ClassPlan) (entry : Target × Grant) :
    Std.ExtTreeMap String ClassPlan :=
  plans.alter entry.1.owner fun held => some ((held.getD {}).add entry.2.access entry.1)

/-- What a set asks of each class that is a target or owns one. -/
def DirectiveSet.plans (set : DirectiveSet) : Std.ExtTreeMap String ClassPlan :=
  set.toList.foldl addGrant ∅

/-- The names that a nested class may be listed under: whatever precedes a dollar sign in its
    name. -/
def enclosingNames (name : List Char) : List (List Char) :=
  match name with
  | [] => []
  | c :: rest =>
    let deeper := (enclosingNames rest).map (c :: ·)
    if c = '$' then [] :: deeper else deeper

/-- A directive set made ready to be applied: the plan of each class, and the classes whose files
    may have to change, that is, the planned ones and those that may list one of them as nested. -/
structure Widener where
  plans : Std.ExtTreeMap String ClassPlan
  touched : Std.ExtTreeSet String
deriving DecidableEq

namespace Widener

/-- The widener of a directive set, which must not be empty. -/
def ofSet (set : DirectiveSet) : Except Fault Widener :=
  if set.isEmpty then .error (.precondition .emptyDirectiveSet)
  else
    let plans := set.plans
    .ok { plans, touched := .ofList (plans.keys.flatMap fun owner =>
      owner :: (enclosingNames owner.toList).map String.ofList) }

/-- Whether the file of a class may have to change. -/
def touches (widener : Widener) (name : String) : Bool :=
  widener.touched.contains name

/-- The new word of an entry for a nested class, if the class is planned. -/
def innerWrite (widener : Widener) (inner : InnerLayout) : Option FlagSite :=
  widener.plans[inner.name]?.map fun plan => plan.typeWrite inner.access

/-- The new words of a class file, in the order in which they are written. -/
def writes (widener : Widener) (order : MemberOrder) (layout : ClassLayout) : List FlagSite :=
  let own := match widener.plans[layout.name]? with
    | some plan => plan.writes order layout
    | none => []
  own ++ layout.inner.filterMap widener.innerWrite

/-- Widens a class file in place. What is left of the file comes first; then whether any byte
    changed. -/
def patchClass (widener : Widener) (bytes : Bytes) (order : MemberOrder := .sorted) :
    Bytes × Except ClassFault Bool :=
  match ClassLayout.parse bytes with
  | .error fault => (bytes, .error fault)
  | .ok layout => writeSites bytes (widener.writes order layout)

/-- The class file with the flags that the directives ask for. -/
def transformClass (widener : Widener) (bytes : Bytes) : Except ClassFault Bytes :=
  let (left, changed) := widener.patchClass bytes
  changed.map fun _ => left

/-- Whether an entry is a class file that may have to change, judged by its path. -/
def concerns (widener : Widener) (entry : ArchiveEntry) : Bool :=
  !entry.isDirectory && (classAtPath? entry.name).any widener.touches

/-- Changed contents by position, with those of one more entry if it changes. -/
def addPatch (widener : Widener) (held : Std.ExtTreeMap Nat Bytes) (entry : ArchiveEntry × Nat) :
    Except Fault (Std.ExtTreeMap Nat Bytes) :=
  if widener.concerns entry.1 then
    match widener.patchClass entry.1.contents with
    | (_, .error fault) => .error (.classFile entry.1.name fault)
    | (contents, .ok true) => .ok (held.insert entry.2 contents)
    | (_, .ok false) => .ok held
  else .ok held

/-- The contents that change in an archive, by position. The first entry that cannot be read ends
    the work. -/
def patches (widener : Widener) (archive : Archive) : Except Fault (Std.ExtTreeMap Nat Bytes) :=
  archive.zipIdx.foldlM widener.addPatch ∅

end Widener

/-- An archive with other contents at some positions. -/
def Archive.patched (archive : Archive) (patches : Std.ExtTreeMap Nat Bytes) : Archive :=
  archive.mapIdx fun position entry =>
    match patches[position]? with
    | some contents => { entry with contents }
    | none => entry

namespace Widener

/-- Widens the archive at a path, and tells whether it changed. After a fault the tree is as it
    was. -/
def apply (widener : Widener) (tree : FileTree) (path : Path) : FileTree × Except Fault Bool :=
  match tree.resolve path, tree.lookup path with
  | .ok names, .ok (.archive archive) =>
    match widener.patches archive with
    | .error fault => (tree, .error fault)
    | .ok patches =>
      if patches.isEmpty then (tree, .ok false)
      else (tree.put names (.archive (archive.patched patches)), .ok true)
  | _, .ok _ => (tree, .error (.archive path))
  | _, .error fault => (tree, .error (.storage fault))

end Widener

end AccessWidener
