import Mathlib.Data.List.Nodup
import AccessWidener.Proofs.Mapping.Descriptor
import AccessWidener.Proofs.Mapping.Rows

/-!
# Tables Between Columns

The tables between any two columns of one mapping file fit together. A row of the file is a symbol,
and every column spells it in its own way: a class by its name there, a member by its name there,
with owner and descriptor carried over from the first column. What has to be shown is that the table
from one column into another takes the one spelling to the other, for every row (`rename?_project`).
Going on to a third column, and going back, then needs no argument of its own.

Owners and descriptors take a detour. The table carries them from the first column to the source
when it is built, and from there to the target when it is asked, while the target spells them as
carried over from the first column directly. The two agree where the class rows tell classes apart,
in the first column for the one step and in the source for the other. A class that has no row keeps
its name, in both ways as long as no row uses that name for something else.

## Main definitions

* `TinyFile.lastValue?`: What the last of several rows with a key has.
* `TinyFile.keyIn`, `TinyFile.symbolsIn`: The symbols of a file as a column spells them.
* `TinyFile.DistinctTypes`, `TinyFile.DistinctMembers`: A column tells symbols apart.
* `TinyFile.ReferencesKnown`: Classes in descriptors have rows, or names that no row uses.

## Theorems

* `type?_project`, `member?_project`: The last of the rows with a key gives the answer.
* `rename?_project`: The table between two columns takes one spelling of a row to the other.
* `ofTiny_coherent`: Tables between the columns of a text fit together.
-/

namespace AccessWidener

namespace TinyFile

/-! ### Tables filled row by row -/

section Fold

variable {α κ : Type} [DecidableEq κ] (key : α → κ) (value : α → String)

/-- What the last of the items with a key has. -/
def lastValue? (k : κ) (items : List α) : Option String :=
  (items.reverse.find? fun item => key item = k).map value

theorem lastValue?_cons (k : κ) (item : α) (items : List α) :
    lastValue? key value k (item :: items) =
      (lastValue? key value k items).or (if key item = k then some (value item) else none) := by
  rw [lastValue?, List.reverse_cons, List.find?_append, Option.map_or, ← lastValue?,
    List.find?_singleton, apply_ite (Option.map value)]
  simp only [decide_eq_true_eq]
  rfl

theorem lastValue?_of_forall_ne {k : κ} {items : List α} (h : ∀ item ∈ items, key item ≠ k) :
    lastValue? key value k items = none := by
  rw [lastValue?, Option.map_eq_none_iff, List.find?_eq_none]
  intro item hmem
  rw [decide_eq_true_eq]
  exact h item (List.mem_reverse.mp hmem)

theorem lastValue?_of_mem {items : List α} (hnodup : (items.map key).Nodup) {item : α}
    (hmem : item ∈ items) : lastValue? key value (key item) items = some (value item) := by
  induction items with
  | nil => cases hmem
  | cons first items ih =>
      rw [List.map_cons, List.nodup_cons] at hnodup
      rw [lastValue?_cons]
      rcases List.mem_cons.mp hmem with rfl | hmem
      · -- No later item has the key of the first one.
        have hlater : ∀ later ∈ items, key later ≠ key item := by
          intro later hlater heq
          exact hnodup.1 (heq ▸ List.mem_map_of_mem hlater)
        rw [lastValue?_of_forall_ne key value hlater, Option.none_or, if_pos rfl]
      · rw [ih hnodup.2 hmem, Option.some_or]

variable [Ord κ] [Std.TransOrd κ] [Std.LawfulEqOrd κ]

/-- A table that is filled item by item holds the last item with a key, or what it held before. -/
theorem getElem?_foldl_insert (items : List α) (held : Std.ExtTreeMap κ String) (k : κ) :
    (items.foldl (fun held item => held.insert (key item) (value item)) held)[k]? =
      (lastValue? key value k items).or held[k]? := by
  induction items generalizing held with
  | nil => rfl
  | cons item items ih =>
      rw [List.foldl_cons, ih, lastValue?_cons, Option.or_assoc, Std.ExtTreeMap.getElem?_insert]
      simp only [Std.LawfulEqCmp.compare_eq_iff_eq]
      split
      · rfl
      · rfl

theorem getElem?_foldl_insert_empty (items : List α) (k : κ) :
    (items.foldl (fun held item => held.insert (key item) (value item))
      (∅ : Std.ExtTreeMap κ String))[k]? = lastValue? key value k items := by
  rw [getElem?_foldl_insert, Std.ExtTreeMap.getElem?_empty, Option.or_none]

end Fold

/-! ### The symbols of a file -/

/-- The key of a member row in a column: its name there, below its owner and with its descriptor
    carried over from the first column. -/
def keyIn (column : Nat) (rows : List TinyRow) (row : MemberRow) : MemberRef where
  owner := (typeNames column rows).getD row.owner row.owner
  signature :=
    { name := nameIn column row.names
      descriptor := Descriptor.rename ((typeNames column rows)[·]?) row.descriptor }

/-- The symbol of a row as a column spells it. -/
def symbolIn (column : Nat) (rows : List TinyRow) : TinyRow → Target
  | .type names => .type (nameIn column names)
  | .member kind owner descriptor names =>
    .member kind (keyIn column rows { owner, descriptor, names })

/-- The classes, methods and fields of a file as a column spells them, row by row. -/
def symbolsIn (column : Nat) (rows : List TinyRow) : List Target :=
  rows.map (symbolIn column rows)

/-- Class names in a column are distinct and can stand in descriptors. -/
structure DistinctTypes (rows : List TinyRow) (column : Nat) : Prop where
  nodup : ((typeRows rows).map (nameIn column)).Nodup
  plain : ∀ names ∈ typeRows rows, ';' ∉ (nameIn column names).toList

/-- The keys of methods are distinct in a column, and so are those of fields. -/
def DistinctMembers (rows : List TinyRow) (column : Nat) : Prop :=
  ∀ kind, ((memberRows kind rows).map (keyIn column rows)).Nodup

/-- The class is called so in the first column. -/
def IsFirstName (rows : List TinyRow) (name : String) : Prop :=
  ∃ names ∈ typeRows rows, nameIn 0 names = name

/-- No class is called so, in any column. An empty cell is no name. -/
def IsUnused (rows : List TinyRow) (name : String) : Prop :=
  ∀ names ∈ typeRows rows, ∀ column < names.length, nameIn column names ≠ name

instance (rows : List TinyRow) (name : String) : Decidable (IsFirstName rows name) :=
  inferInstanceAs (Decidable (∃ names ∈ typeRows rows, nameIn 0 names = name))

instance (rows : List TinyRow) (name : String) : Decidable (IsUnused rows name) :=
  inferInstanceAs
    (Decidable (∀ names ∈ typeRows rows, ∀ column < names.length, nameIn column names ≠ name))

/-- Every class that a descriptor refers to has a class row, or its name occurs in no class row. -/
def ReferencesKnown (rows : List TinyRow) : Prop :=
  ∀ kind, ∀ row ∈ memberRows kind rows, ∀ name ∈ Descriptor.references row.descriptor,
    IsFirstName rows name ∨ IsUnused rows name

/-! ### The contents of a table -/

theorem typeNames_eq (column : Nat) (rows : List TinyRow) :
    typeNames column rows = (typeRows rows).foldl
      (fun held names => held.insert (nameIn 0 names) (nameIn column names)) ∅ := by
  rw [typeNames, typeRows, List.foldl_filterMap]
  congr 1
  funext held row
  cases row <;> rfl

section Project

variable (projection : Projection)

theorem types_foldl_addMemberRow (toSource : Std.ExtTreeMap String String) (rows : List TinyRow)
    (table : MappingTable) :
    (rows.foldl (addMemberRow projection toSource) table).types = table.types := by
  induction rows generalizing table with
  | nil => rfl
  | cons row rows ih =>
      rw [List.foldl_cons, ih]
      cases row with
      | type names => rfl
      | member kind owner descriptor names => cases kind <;> rfl

theorem types_foldl_addTypeRow (rows : List TinyRow) (table : MappingTable) :
    (rows.foldl (addTypeRow projection) table).types =
      (typeRows rows).foldl (fun held names =>
        held.insert (nameIn projection.source names) (nameIn projection.target names))
          table.types := by
  induction rows generalizing table with
  | nil => rfl
  | cons row rows ih =>
      rw [List.foldl_cons, ih]
      cases row <;> rfl

theorem members_foldl_addTypeRow (rows : List TinyRow) (table : MappingTable) (kind : MemberKind) :
    (rows.foldl (addTypeRow projection) table).members kind = table.members kind := by
  induction rows generalizing table with
  | nil => rfl
  | cons row rows ih =>
      rw [List.foldl_cons, ih]
      cases row with
      | type names => cases kind <;> rfl
      | member kind' owner descriptor names => rfl

theorem members_addMember (table : MappingTable) (kind kind' : MemberKind) (ref : MemberRef)
    (renamed : String) : (table.addMember kind ref renamed).members kind' =
      if kind = kind' then (table.members kind').insert ref renamed else table.members kind' := by
  cases kind <;> cases kind' <;> rfl

theorem members_foldl_addMemberRow (toSource : Std.ExtTreeMap String String) (rows : List TinyRow)
    (table : MappingTable) (kind : MemberKind) :
    (rows.foldl (addMemberRow projection toSource) table).members kind =
      (memberRows kind rows).foldl (fun held row =>
        held.insert (memberKey projection toSource row.owner row.descriptor row.names)
          (nameIn projection.target row.names)) (table.members kind) := by
  induction rows generalizing table with
  | nil => rfl
  | cons row rows ih =>
      rw [List.foldl_cons, ih]
      cases row with
      | type names => rfl
      | member kind' owner descriptor names =>
          rw [addMemberRow, members_addMember, memberRows, memberRows, List.filterMap_cons]
          -- A row of the other kind is in neither fold.
          by_cases hkind : kind' = kind
          · simp only [hkind, if_true, List.foldl_cons]
          · simp only [hkind, if_false]

variable {rows : List TinyRow} {source target : Namespace}

theorem types_project : (project projection rows (.between source target)).types =
    (typeRows rows).foldl (fun held names =>
      held.insert (nameIn projection.source names) (nameIn projection.target names)) ∅ := by
  rw [project, types_foldl_addMemberRow, types_foldl_addTypeRow]
  rfl

theorem members_project (kind : MemberKind) :
    (project projection rows (.between source target)).members kind =
      (memberRows kind rows).foldl (fun held row =>
        held.insert (keyIn projection.source rows row) (nameIn projection.target row.names)) ∅ := by
  rw [project, members_foldl_addMemberRow, members_foldl_addTypeRow]
  cases kind <;> rfl

/-- The table answers for a class as the last row does that names the class so in the source. -/
theorem type?_project (name : String) :
    (project projection rows (.between source target)).type? name =
      lastValue? (nameIn projection.source) (nameIn projection.target) name (typeRows rows) := by
  rw [MappingTable.type?, types_project, getElem?_foldl_insert_empty]

/-- The table answers for a member as the last row does that has this key in the source. -/
theorem member?_project (kind : MemberKind) (ref : MemberRef) :
    (project projection rows (.between source target)).member? kind ref =
      lastValue? (keyIn projection.source rows) (fun row => nameIn projection.target row.names) ref
        (memberRows kind rows) := by
  rw [MappingTable.member?, members_project, getElem?_foldl_insert_empty]

end Project

/-! ### Looking symbols up -/

section Lookup

variable {rows : List TinyRow} {names : List String}

/-- Where the first column tells classes apart, it leads to every other column. -/
theorem typeNames_of_mem (h : DistinctTypes rows 0) (hmem : names ∈ typeRows rows) (column : Nat) :
    (typeNames column rows)[nameIn 0 names]? = some (nameIn column names) := by
  rw [typeNames_eq, getElem?_foldl_insert_empty]
  exact lastValue?_of_mem (nameIn 0) (nameIn column) h.nodup hmem

theorem typeNames_of_forall_ne {name : String} (h : ∀ names ∈ typeRows rows, nameIn 0 names ≠ name)
    (column : Nat) : (typeNames column rows)[name]? = none := by
  rw [typeNames_eq, getElem?_foldl_insert_empty]
  exact lastValue?_of_forall_ne (nameIn 0) (nameIn column) h

variable {projection : Projection} {source target : Namespace}

theorem type?_project_of_mem (h : DistinctTypes rows projection.source)
    (hmem : names ∈ typeRows rows) :
    (project projection rows (.between source target)).type? (nameIn projection.source names) =
      some (nameIn projection.target names) := by
  rw [type?_project]
  exact lastValue?_of_mem (nameIn projection.source) (nameIn projection.target) h.nodup hmem

theorem type?_project_of_forall_ne {name : String}
    (h : ∀ names ∈ typeRows rows, nameIn projection.source names ≠ name) :
    (project projection rows (.between source target)).type? name = none := by
  rw [type?_project]
  exact lastValue?_of_forall_ne (nameIn projection.source) (nameIn projection.target) h

theorem member?_project_of_mem {kind : MemberKind} {row : MemberRow}
    (h : DistinctMembers rows projection.source) (hmem : row ∈ memberRows kind rows) :
    (project projection rows (.between source target)).member? kind
      (keyIn projection.source rows row) = some (nameIn projection.target row.names) := by
  rw [member?_project]
  exact lastValue?_of_mem (keyIn projection.source rows)
    (fun row => nameIn projection.target row.names) (h kind) hmem

end Lookup

section Coherence

variable {file : TinyFile} {projection : Projection} {source target : Namespace}

/-- What a descriptor of the file refers to goes from the first column to the source, and from there
    with the table to the target, where it goes from the first column directly. -/
theorem chains_project (hfile : file.WellFormed) (hcolumn : projection.source < file.columns.length)
    (hfirst : DistinctTypes file.rows 0) (hsource : DistinctTypes file.rows projection.source)
    {name : String} (h : IsFirstName file.rows name ∨ IsUnused file.rows name) :
    Descriptor.Chains ((typeNames projection.source file.rows)[·]?)
      (project projection file.rows (.between source target)).type?
      ((typeNames projection.target file.rows)[·]?) name := by
  unfold Descriptor.Chains
  rcases h with ⟨names, hmem, rfl⟩ | hunused
  · simp only [typeNames_of_mem hfirst hmem]
    rw [type?_project_of_mem hsource hmem]
    exact ⟨hsource.plain names hmem, rfl, rfl⟩
  · -- A name that no row uses is the name of no row, in whichever column.
    have hne : ∀ column < file.columns.length, ∀ names ∈ typeRows file.rows,
        nameIn column names ≠ name := by
      intro column hlt names hmem
      have hwidth := hfile.width names hmem
      exact hunused names hmem column (by omega)
    have hzero := hne 0 (by omega)
    simp only [typeNames_of_forall_ne hzero]
    exact ⟨type?_project_of_forall_ne (hne projection.source hcolumn), trivial⟩

/-- The owner and the descriptor of a member go along with its name. -/
theorem rename?_project_member (hfile : file.WellFormed)
    (hcolumn : projection.source < file.columns.length)
    (hfirst : DistinctTypes file.rows 0) (hsource : DistinctTypes file.rows projection.source)
    (hmembers : DistinctMembers file.rows projection.source)
    (hreferences : ReferencesKnown file.rows)
    {kind : MemberKind} {row : MemberRow} (hmem : row ∈ memberRows kind file.rows) :
    (project projection file.rows (.between source target)).symbols.rename?
      (.member kind (keyIn projection.source file.rows row)) =
        some (.member kind (keyIn projection.target file.rows row)) := by
  rcases hfile.owner kind row hmem with ⟨names, htype, hname⟩
  -- The class that the member belongs to has a row, and the owner is its name in each column.
  have howner : ∀ column, (keyIn column file.rows row).owner = nameIn column names := by
    intro column
    rw [keyIn, Std.ExtTreeMap.getD_eq_getD_getElem?, ← hname, typeNames_of_mem hfirst htype,
      Option.getD_some]
  -- Renamed into the source column and then by the table, it is as renamed into the target one.
  have hdescriptor : (project projection file.rows (.between source target)).rename
      (keyIn projection.source file.rows row).signature.descriptor =
        (keyIn projection.target file.rows row).signature.descriptor :=
    Descriptor.rename_rename fun name href =>
      chains_project hfile hcolumn hfirst hsource (hreferences kind row hmem name href)
  simp only [Symbols.rename?, MappingTable.symbols, howner projection.source,
    type?_project_of_mem hsource htype, member?_project_of_mem hmembers hmem, Option.map_some,
    MappingTable.renamedSignature, hdescriptor, Option.bind_eq_bind, Option.bind_some,
    ← howner projection.target]
  rfl

/-- The table between two columns takes what the one column calls a row to what the other one calls
    it. -/
theorem rename?_project (projection : Projection) (source target : Namespace)
    (hfile : file.WellFormed) (hcolumn : projection.source < file.columns.length)
    (hfirst : DistinctTypes file.rows 0) (hsource : DistinctTypes file.rows projection.source)
    (hmembers : DistinctMembers file.rows projection.source)
    (hreferences : ReferencesKnown file.rows)
    {row : TinyRow} (hmem : row ∈ file.rows) :
    (project projection file.rows (.between source target)).symbols.rename?
      (symbolIn projection.source file.rows row) =
        some (symbolIn projection.target file.rows row) := by
  cases row with
  | type names =>
      have htype : (project projection file.rows (.between source target)).type?
          (nameIn projection.source names) = some (nameIn projection.target names) :=
        type?_project_of_mem hsource (mem_typeRows_iff.mpr hmem)
      simp only [symbolIn, Symbols.rename?, MappingTable.symbols, htype, Option.map_some]
  | member kind owner descriptor names =>
      exact rename?_project_member hfile hcolumn hfirst hsource hmembers hreferences
        (mem_memberRows_iff.mpr hmem)

end Coherence

end TinyFile

open TinyFile

theorem MappingTable.ofTiny_of_parse {text : List Char} {source target : Namespace}
    {file : TinyFile} {projection : Projection}
    (h : TinyFile.parse text source target = .ok (file, projection)) :
    ofTiny text source target = .ok (project projection file.rows (.between source target)) := by
  rw [ofTiny, h]
  rfl

/-- Tables between the columns of a text fit together: from `s` to `t` and on to `u` is from `s` to
    `u`, and from `s` to `t` and back is where it started, for every symbol of the file. -/
theorem MappingTable.ofTiny_coherent {text : List Char} {s t u : Namespace} {file : TinyFile}
    {columns : Projection} {third : Nat} (hparse : TinyFile.parse text s t = .ok (file, columns))
    (hthird : columnOf file.columns u = .ok third)
    (htypes : ∀ column ∈ [0, columns.source, columns.target, third], DistinctTypes file.rows column)
    (hmembers : ∀ column ∈ [columns.source, columns.target, third],
      DistinctMembers file.rows column)
    (hreferences : ReferencesKnown file.rows) :
    ∃ st tu su ts, ofTiny text s t = .ok st ∧ ofTiny text t u = .ok tu ∧ ofTiny text s u = .ok su ∧
      ofTiny text t s = .ok ts ∧ ∀ x ∈ symbolsIn columns.source file.rows,
        ∃ y z, st.symbols.rename? x = some y ∧ tu.symbols.rename? y = some z ∧
          su.symbols.rename? x = some z ∧ ts.symbols.rename? y = some x := by
  rcases exists_lines_of_parse hparse with ⟨-, -, -, -, hs, ht, -⟩
  have hfile := wellFormed_of_parse hparse
  have hlt := lt_length_of_columnOf hs
  have hlt' := lt_length_of_columnOf ht
  have hfirst := htypes 0 (by simp)
  have htypesS := htypes columns.source (by simp)
  have htypesT := htypes columns.target (by simp)
  have hmembersS := hmembers columns.source (by simp)
  have hmembersT := hmembers columns.target (by simp)
  refine ⟨_, _, _, _, ofTiny_of_parse (parse_of_parse hparse hs ht),
    ofTiny_of_parse (parse_of_parse hparse ht hthird),
    ofTiny_of_parse (parse_of_parse hparse hs hthird),
    ofTiny_of_parse (parse_of_parse hparse ht hs), fun x hx => ?_⟩
  rcases List.mem_map.mp hx with ⟨row, hmem, rfl⟩
  -- Each table takes the row from its own source to its own target.
  refine ⟨symbolIn columns.target file.rows row, symbolIn third file.rows row, ?_, ?_, ?_, ?_⟩
  · exact rename?_project ⟨columns.source, columns.target⟩ s t hfile hlt hfirst htypesS hmembersS
      hreferences hmem
  · exact rename?_project ⟨columns.target, third⟩ t u hfile hlt' hfirst htypesT hmembersT
      hreferences hmem
  · exact rename?_project ⟨columns.source, third⟩ s u hfile hlt hfirst htypesS hmembersS
      hreferences hmem
  · exact rename?_project ⟨columns.target, columns.source⟩ t s hfile hlt' hfirst htypesT hmembersT
      hreferences hmem

/-- A mapping file with a class that is called the same in two columns, and with a descriptor that
    refers to a class of the file and to one from elsewhere. -/
def TinyFile.threeColumns : TinyFile where
  columns := ["official", "intermediary", "named"]
  rows := [
    .type ["a", "x/C1", "x/Foo"],
    .member .method "a" "(Lb;Lq/Other;)V" ["c", "m1", "accept"],
    .member .field "a" "[Lb;" ["d", "f1", "count"],
    .type ["b", "x/C2", "b"]]

/-- The text of the file. -/
def TinyFile.threeColumnsText : List Char :=
  ("tiny\t2\t0\tofficial\tintermediary\tnamed\n" ++
    "c\ta\tx/C1\tx/Foo\n" ++
    "\tm\t(Lb;Lq/Other;)V\tc\tm1\taccept\n" ++
    "\tf\t[Lb;\td\tf1\tcount\n" ++
    "c\tb\tx/C2\t\n").toList

/-- From the second column to the third and on to the first. -/
theorem MappingTable.ofTiny_coherent_threeColumns :
    ∃ st tu su ts, ofTiny threeColumnsText .intermediary .named = .ok st ∧
      ofTiny threeColumnsText .named .official = .ok tu ∧
      ofTiny threeColumnsText .intermediary .official = .ok su ∧
      ofTiny threeColumnsText .named .intermediary = .ok ts ∧
      ∀ x ∈ symbolsIn 1 threeColumns.rows, ∃ y z, st.symbols.rename? x = some y ∧
        tu.symbols.rename? y = some z ∧ su.symbols.rename? x = some z ∧
          ts.symbols.rename? y = some x := by
  have hparse : TinyFile.parse threeColumnsText .intermediary .named =
      .ok (threeColumns, { source := 1, target := 2 }) := by decide +kernel
  -- Repetitions and semicolons are looked for in each column by itself.
  have htypes : ∀ column ∈ [0, 1, 2, 0], DistinctTypes threeColumns.rows column := by
    intro column hmem
    have hnodup : ∀ column ∈ [0, 1, 2, 0],
        ((typeRows threeColumns.rows).map (nameIn column)).Nodup := by decide +kernel
    have hplain : ∀ column ∈ [0, 1, 2, 0], ∀ names ∈ typeRows threeColumns.rows,
        ';' ∉ (nameIn column names).toList := by decide +kernel
    exact ⟨hnodup column hmem, hplain column hmem⟩
  have hmembers : ∀ column ∈ [1, 2, 0], DistinctMembers threeColumns.rows column := by
    intro column hmem kind
    have hnodup : ∀ kind ∈ [MemberKind.method, .field], ∀ column ∈ [1, 2, 0],
        ((memberRows kind threeColumns.rows).map (keyIn column threeColumns.rows)).Nodup := by
      decide +kernel
    exact hnodup kind (by cases kind <;> decide) column hmem
  have hreferences : ReferencesKnown threeColumns.rows := by
    intro kind
    cases kind with
    | method => decide +kernel
    | field => decide +kernel
  exact MappingTable.ofTiny_coherent hparse (by decide +kernel : _ = Except.ok 0) htypes hmembers
    hreferences

end AccessWidener
