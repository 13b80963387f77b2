import AccessWidener.Proofs.Except
import AccessWidener.Proofs.Mapping.RowGrammar

/-!
# Accepted Mapping Files

What is known of a mapping file once it is accepted. Every row has a name for each column, and every
member stands below a class row, whose name in the first column is the owner that the member row
keeps. Both are facts about one line that pass through the list of lines: the only thing carried
from line to line is the class that the next members belong to.

The columns that a table is projected on are looked up in the header only. So a text that is
accepted for two namespaces is accepted, with the same rows, for any other two that its header
declares.

## Main definitions

* `TinyFile.typeRows`, `TinyFile.memberRows`: The class rows and the member rows of a file.
* `TinyFile.WellFormed`: Rows are as wide as the header and members have classes.

## Theorems

* `ofLine?_cases`: What the row of a line can be.
* `wellFormed_of_parse`: An accepted file is well formed.
* `parse_of_parse`: An accepted file is accepted for other columns.
-/

namespace AccessWidener

namespace TinyRow

variable {columns number : Nat} {owner? : Option String}

theorem length_names {cells found : List String} (h : names columns number cells = .ok found) :
    found.length = columns ∧ found ≠ [] := by
  cases cells with
  | nil => cases h
  | cons first rest =>
      rw [names] at h
      split at h
      · cases h
      · next hcells =>
        simp only [ne_eq, Bool.or_eq_true, decide_eq_true_eq, not_or, Decidable.not_not] at hcells
        cases h
        exact ⟨by rw [List.length_map, hcells.1], by simp⟩

/-- A member row keeps the class it stands below. -/
theorem ofMemberCells_eq_ok {kind : MemberKind} {cells : List String} {row : TinyRow}
    (h : ofMemberCells columns number owner? kind cells = .ok row) :
    ∃ owner descriptor found, row = .member kind owner descriptor found ∧ owner? = some owner ∧
      found.length = columns := by
  unfold ofMemberCells at h
  cases owner? with
  | none => cases h
  | some owner =>
      cases cells with
      | nil => cases h
      | cons descriptor rest =>
          simp only [bind_eq_ok_iff] at h
          rcases h with ⟨found, hfound, hrow⟩
          cases hrow
          exact ⟨owner, descriptor, found, rfl, rfl, (length_names hfound).1⟩

/-- The row of a line is a class row, or a member row below a class. -/
theorem ofLine?_cases {line : List Char} {row : TinyRow}
    (h : ofLine? columns number owner? line = .ok (some row)) :
    (∃ found, row = .type found ∧ found.length = columns ∧ found ≠ []) ∨
      ∃ kind owner descriptor found, row = .member kind owner descriptor found ∧
        owner? = some owner ∧ found.length = columns := by
  unfold ofLine? at h
  simp only at h
  split at h
  · -- At the margin, only a class gives a row.
    next letter rest _ _ =>
    split at h
    · rw [bind_eq_ok_iff] at h
      rcases h with ⟨found, hfound, hrow⟩
      cases hrow
      exact .inl ⟨found, rfl, length_names hfound⟩
    · split at h
      · cases h
      · cases h
  · -- Indented once, only a member does.
    next letter rest _ _ =>
    split at h
    · next kind _ =>
      rw [map_eq_pure_bind, bind_eq_ok_iff] at h
      rcases h with ⟨found, hfound, hrow⟩
      cases hrow
      rcases ofMemberCells_eq_ok hfound with ⟨owner, descriptor, names, hnames⟩
      exact .inr ⟨kind, owner, descriptor, names, hnames⟩
    · cases h
  · cases h

/-- Every row has a name for each column, and a member row stands below the class from before the
    lines or below a class row among them. -/
theorem rows_of_ofLines {lines : List (List Char)} {rows : List TinyRow}
    (h : ofLines columns number owner? lines = .ok rows) :
    (∀ found, .type found ∈ rows → found.length = columns ∧ found ≠ []) ∧
      ∀ kind owner descriptor found, .member kind owner descriptor found ∈ rows →
        owner? = some owner ∨ ∃ names, .type names ∈ rows ∧ names.head? = some owner := by
  -- The owner of the rows below changes from line to line, so the induction is for any owner.
  induction lines generalizing number owner? rows with
  | nil =>
      cases h
      exact ⟨by simp, by simp⟩
  | cons line lines ih =>
      rw [ofLines, bind_eq_ok_iff] at h
      rcases h with ⟨row?, hrow?, h⟩
      rw [bind_eq_ok_iff] at h
      rcases h with ⟨rest, hrest, h⟩
      cases h
      rcases ih hrest with ⟨hwidth, howner⟩
      cases row? with
      | none => exact ⟨hwidth, howner⟩
      | some row =>
          simp only [Option.toList_some, List.singleton_append, List.mem_cons]
          -- A class row is the class of the members below it, a member row has the class above it.
          rcases ofLine?_cases hrow? with ⟨names, rfl, hnames⟩ | ⟨kind, owner, descriptor, names,
            rfl, howner?, -⟩
          · refine ⟨?_, fun kind owner descriptor found hmem => ?_⟩
            · rintro found (heq | hmem)
              · cases heq
                exact hnames
              · exact hwidth found hmem
            · rcases hmem with hmem | hmem
              · cases hmem
              · rcases howner kind owner descriptor found hmem with hhead | ⟨above, hmem', hhead⟩
                · exact .inr ⟨names, .inl rfl, hhead⟩
                · exact .inr ⟨above, .inr hmem', hhead⟩
          · refine ⟨?_, fun kind' owner' descriptor' found hmem => ?_⟩
            · rintro found (heq | hmem)
              · cases heq
              · exact hwidth found hmem
            · rcases hmem with hmem | hmem
              · cases hmem
                exact .inl howner?
              · rcases howner kind' owner' descriptor' found hmem with hhead | ⟨above, hmem', hhead⟩
                · exact .inl hhead
                · exact .inr ⟨above, .inr hmem', hhead⟩

end TinyRow

namespace TinyFile

/-- A row for a field or method. -/
structure MemberRow where
  owner : String
  descriptor : String
  names : List String
deriving DecidableEq, Repr

/-- The names in the class rows, in order. -/
def typeRows (rows : List TinyRow) : List (List String) :=
  rows.filterMap fun
    | .type names => some names
    | .member .. => none

/-- The rows for the members of a kind, in order. -/
def memberRows (kind : MemberKind) (rows : List TinyRow) : List MemberRow :=
  rows.filterMap fun
    | .type _ => none
    | .member kind' owner descriptor names =>
      if kind' = kind then some { owner, descriptor, names } else none

theorem mem_typeRows_iff {rows : List TinyRow} {names : List String} :
    names ∈ typeRows rows ↔ .type names ∈ rows := by
  rw [typeRows, List.mem_filterMap]
  constructor
  · rintro ⟨row, hmem, hrow⟩
    cases row with
    | type names' =>
        cases hrow
        exact hmem
    | member kind owner descriptor names' => cases hrow
  · exact fun hmem => ⟨_, hmem, rfl⟩

theorem mem_memberRows_iff {rows : List TinyRow} {kind : MemberKind} {row : MemberRow} :
    row ∈ memberRows kind rows ↔ .member kind row.owner row.descriptor row.names ∈ rows := by
  rw [memberRows, List.mem_filterMap]
  constructor
  · rintro ⟨row', hmem, hrow⟩
    cases row' with
    | type names => cases hrow
    | member kind' owner descriptor names =>
        simp only [Option.ite_none_right_eq_some, Option.some.injEq] at hrow
        rcases hrow with ⟨rfl, rfl⟩
        exact hmem
  · exact fun hmem => ⟨_, hmem, if_pos rfl⟩

/-- Every class row has a name for each column, and the owner of every member is the name of a class
    row in the first column. -/
structure WellFormed (file : TinyFile) : Prop where
  width : ∀ names ∈ typeRows file.rows, names.length = file.columns.length
  owner : ∀ kind, ∀ row ∈ memberRows kind file.rows,
    ∃ names ∈ typeRows file.rows, nameIn 0 names = row.owner

theorem lt_length_of_columnOf {columns : List String} {ns : Namespace} {column : Nat}
    (h : columnOf columns ns = .ok column) : column < columns.length := by
  rw [columnOf_eq] at h
  split at h
  · next hmem =>
    cases h
    exact List.idxOf_lt_length_of_mem hmem
  · cases h

section Parse

variable {text : List Char} {source target : Namespace} {file : TinyFile} {projection : Projection}

/-- An accepted file is its header and the rows of the lines below it. -/
theorem exists_lines_of_parse (h : parse text source target = .ok (file, projection)) :
    ∃ header lines, Text.lines text = header :: lines ∧ parseHeader header = .ok file.columns ∧
      columnOf file.columns source = .ok projection.source ∧
      columnOf file.columns target = .ok projection.target ∧
      TinyRow.ofLines file.columns.length 2 none lines = .ok file.rows := by
  unfold parse at h
  cases hlines : Text.lines text with
  | nil =>
      rw [hlines] at h
      cases h
  | cons header lines =>
      simp only [hlines, bind_eq_ok_iff] at h
      rcases h with
        ⟨columns, hcolumns, sourceColumn, hsource, targetColumn, htarget, rows, hrows, h⟩
      cases h
      exact ⟨header, lines, rfl, hcolumns, hsource, htarget, hrows⟩

/-- A file that is accepted is accepted for any two columns that it has. -/
theorem parse_of_parse (h : parse text source target = .ok (file, projection))
    {source' target' : Namespace} {first second : Nat}
    (hfirst : columnOf file.columns source' = .ok first)
    (hsecond : columnOf file.columns target' = .ok second) :
    parse text source' target' = .ok (file, { source := first, target := second }) := by
  rcases exists_lines_of_parse h with ⟨header, lines, hlines, hcolumns, -, -, hrows⟩
  unfold parse
  simp only [hlines, bind_eq_ok_iff]
  exact ⟨file.columns, hcolumns, first, hfirst, second, hsecond, file.rows, hrows, rfl⟩

/-- An accepted file is well formed. -/
theorem wellFormed_of_parse (h : parse text source target = .ok (file, projection)) :
    file.WellFormed := by
  rcases exists_lines_of_parse h with ⟨header, lines, -, -, -, -, hrows⟩
  rcases TinyRow.rows_of_ofLines hrows with ⟨hwidth, howner⟩
  refine ⟨fun names hmem => (hwidth names (mem_typeRows_iff.mp hmem)).1, fun kind row hmem => ?_⟩
  -- No class is known before the first line.
  rcases howner _ _ _ _ (mem_memberRows_iff.mp hmem) with hnone | ⟨names, hmem', hhead⟩
  · cases hnone
  · refine ⟨names, mem_typeRows_iff.mpr hmem', ?_⟩
    rw [nameIn, List.getD_eq_getElem?_getD, ← List.head?_eq_getElem?, hhead, Option.getD_some]

end Parse

end TinyFile

end AccessWidener
