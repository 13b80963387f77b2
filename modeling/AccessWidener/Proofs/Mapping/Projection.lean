import AccessWidener.Proofs.Mapping.Columns

/-!
# The Table That a Text Spells

A text spells a table if it is accepted, and then the table is known from the rows that its lines
hold. It answers for a class as the last row does that names the class so in the source. For a
member the owner and the descriptor of a row are in the first column, so they are taken to the
source before keys are compared. This uses the class rows of the whole file, those below the member
included, and for a class with several rows the last one.

## Main definitions

* `TinyFile.typeIn?`, `TinyFile.sourceKey`: What a class and a member are called in the source.
* `MappingTable.Answers`: A table answers as rows do.

## Theorems

* `answers_project`: The projection of rows on two columns answers as the rows do.
* `ofTiny_exact`: Which texts spell a table, which one, and why others do not.
-/

namespace AccessWidener

namespace TinyFile

/-- What a class is called in a column, from its name in the first one. -/
def typeIn? (column : Nat) (rows : List TinyRow) (name : String) : Option String :=
  lastValue? (nameIn 0) (nameIn column) name (typeRows rows)

/-- Owner, name and descriptor of a member in the source. Classes without a row keep their names. -/
def sourceKey (source : Nat) (rows : List TinyRow) (row : MemberRow) : MemberRef where
  owner := (typeIn? source rows row.owner).getD row.owner
  signature :=
    { name := nameIn source row.names
      descriptor := Descriptor.rename (typeIn? source rows) row.descriptor }

theorem getElem?_typeNames (column : Nat) (rows : List TinyRow) (name : String) :
    (typeNames column rows)[name]? = typeIn? column rows name := by
  rw [typeNames_eq, getElem?_foldl_insert_empty, typeIn?]

theorem keyIn_eq_sourceKey (column : Nat) (rows : List TinyRow) :
    keyIn column rows = sourceKey column rows := by
  funext row
  rw [keyIn, sourceKey, Std.ExtTreeMap.getD_eq_getD_getElem?, getElem?_typeNames]
  simp only [getElem?_typeNames]

end TinyFile

open TinyFile

/-- A table between two columns answers for classes and members as rows do, the last of several rows
    with the same key. -/
structure MappingTable.Answers (table : MappingTable) (source target : Nat) (rows : List TinyRow) :
    Prop where
  type : ∀ name, table.type? name =
    lastValue? (nameIn source) (nameIn target) name (typeRows rows)
  member : ∀ kind ref, table.member? kind ref =
    lastValue? (sourceKey source rows) (fun row => nameIn target row.names) ref
      (memberRows kind rows)

theorem MappingTable.answers_project (projection : Projection) (rows : List TinyRow)
    (source target : Namespace) : (project projection rows (.between source target)).Answers
      projection.source projection.target rows where
  type := type?_project projection
  member kind ref := by rw [member?_project, keyIn_eq_sourceKey]

/-- A text spells a table exactly if it is accepted. The table answers as the rows of the text do
    between its columns for the two namespaces, and a fault is one for which the text is refused. -/
theorem MappingTable.ofTiny_exact (text : List Char) (source target : Namespace) :
    ((∃ table, ofTiny text source target = .ok table) ↔
        ∃ columns lines, Accepted text source target columns lines) ∧
      (∀ columns lines, Accepted text source target columns lines →
        ∃ table, ofTiny text source target = .ok table ∧
          table.Answers (columns.idxOf source.token) (columns.idxOf target.token)
            (TinyRow.rowsBelow [] lines)) ∧
      ∀ fault, ofTiny text source target = .error fault → Refused text source target fault := by
  rcases parse_exact text source target with
    ⟨columns, lines, haccepted, hparse⟩ | ⟨fault, hrefused, hparse⟩
  · -- Columns and lines belong to the text, so there are no others that it is accepted with.
    have htable := ofTiny_of_parse hparse
    refine ⟨⟨fun _ => ⟨columns, lines, haccepted⟩, fun _ => ⟨_, htable⟩⟩, ?_, fun fault h => ?_⟩
    · intro columns' lines' haccepted'
      rcases haccepted.unique haccepted' with ⟨rfl, rfl⟩
      exact ⟨_, htable, answers_project _ _ _ _⟩
    · rw [htable] at h
      cases h
  · have htable : ofTiny text source target = .error fault := by
      rw [ofTiny, hparse]
      rfl
    -- A text that is refused is not accepted with any columns and lines.
    have hnone : ∀ columns lines, ¬ Accepted text source target columns lines :=
      fun columns lines haccepted => haccepted.not_refused hrefused
    refine ⟨⟨?_, ?_⟩, fun columns lines haccepted => absurd haccepted (hnone columns lines), ?_⟩
    · rintro ⟨table, h⟩
      rw [htable] at h
      cases h
    · rintro ⟨columns, lines, haccepted⟩
      exact absurd haccepted (hnone columns lines)
    · intro fault' h
      rw [htable] at h
      cases h
      exact hrefused

/-- A mapping file with a descriptor that refers to a class below, which has two rows, with two rows
    for one method, and with a comment that begins like a class row. -/
def TinyFile.laterRows : TinyFile where
  columns := ["official", "named"]
  rows := [
    .type ["a", "x/Foo"],
    .member .method "a" "(Lb;)V" ["c", "accept"],
    .member .method "a" "(Lb;)V" ["d", "accept"],
    .type ["b", "x/Bar"],
    .type ["b", "x/Baz"],
    .type ["e", "e"]]

/-- The header of the file. -/
def TinyFile.laterRowsHeader : List Char :=
  "tiny\t2\t0\tofficial\tnamed".toList

/-- The lines below it. -/
def TinyFile.laterRowsLines : List (List Char) :=
  ["c\ta\tx/Foo", "\tc\tA comment.", "\tm\t(Lb;)V\tc\taccept", "\tm\t(Lb;)V\td\taccept", "",
    "c\tb\tx/Bar", "c\tb\tx/Baz", "c\te\t"].map String.toList

/-- The text of the header with lines below it. -/
def TinyFile.laterRowsText (lines : List (List Char)) : List Char :=
  (laterRowsHeader :: lines).flatMap (· ++ ['\n'])

/-- The last rows answer, and a class without a name of its own keeps its first one. Without the
    first class row the method in the third line is at fault, and the comment above it is not. -/
theorem MappingTable.ofTiny_exact_laterRows :
    Accepted (laterRowsText laterRowsLines) .named .official laterRows.columns laterRowsLines ∧
      (∃ table, ofTiny (laterRowsText laterRowsLines) .named .official = .ok table ∧
        table.type? "x/Bar" = some "b" ∧ table.type? "x/Baz" = some "b" ∧
        table.type? "e" = some "e" ∧
        table.member? .method
          { owner := "x/Foo", signature := { name := "accept", descriptor := "(Lx/Baz;)V" } } =
            some "d" ∧
        table.member? .method
          { owner := "x/Foo", signature := { name := "accept", descriptor := "(Lx/Bar;)V" } } =
            none) ∧
      Refused (laterRowsText laterRowsLines.tail) .named .official
        (.defect 3 .memberOutsideClass) := by
  have hparse : parse (laterRowsText laterRowsLines) .named .official =
      .ok (laterRows, { source := 1, target := 0 }) := by decide +kernel
  have hfault : parse (laterRowsText laterRowsLines.tail) .named .official =
      .error (.defect 3 .memberOutsideClass) := by decide +kernel
  have hlines : Text.lines (laterRowsText laterRowsLines) = laterRowsHeader :: laterRowsLines := by
    decide +kernel
  have hheader : IsHeader laterRowsHeader laterRows.columns :=
    ⟨"0", by decide +kernel, by decide⟩
  have hexact := ofTiny_exact (laterRowsText laterRowsLines) .named .official
  -- That the text is accepted follows from its table, and the columns are those of its header.
  have haccepted : Accepted (laterRowsText laterRowsLines) .named .official laterRows.columns
      laterRowsLines := by
    rcases hexact.1.mp ⟨_, ofTiny_of_parse hparse⟩ with
      ⟨columns, lines, header, hlines', hheader', haccepted⟩
    cases hlines.symm.trans hlines'
    rw [← hheader.unique hheader'] at haccepted
    exact ⟨laterRowsHeader, hlines, hheader, haccepted⟩
  rcases hexact.2.1 _ _ haccepted with ⟨table, htable, hanswers⟩
  refine ⟨haccepted, ⟨table, htable, ?_, ?_, ?_, ?_, ?_⟩, ?_⟩
  · rw [hanswers.type]
    decide +kernel
  · rw [hanswers.type]
    decide +kernel
  · rw [hanswers.type]
    decide +kernel
  · rw [hanswers.member]
    decide +kernel
  · rw [hanswers.member]
    decide +kernel
  · refine (ofTiny_exact (laterRowsText laterRowsLines.tail) .named .official).2.2 _ ?_
    rw [ofTiny, hfault]
    rfl

end AccessWidener
