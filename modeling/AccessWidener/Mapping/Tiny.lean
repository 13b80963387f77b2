import AccessWidener.Mapping.Fault
import AccessWidener.Mapping.Table

/-!
# Tiny Mapping Files

A mapping file in the Tiny format, version 2, is a table with one column per namespace. Its header
names the columns. A class row starts a line; the method and field rows below it are indented by
one tab and carry a descriptor. An empty name stands for the name in the first column, in which
owners and descriptors are spelled as well. Comments, parameters and properties are skipped.

A table is the projection of a file on two of its columns: owners and descriptors are taken
into the source column with the class rows of the whole file, and the last of several rows for the
same symbol wins.

## Main definitions

* `TinyRow`, `TinyFile`: The rows of a file and its columns.
* `TinyFile.parse`: The file that a text spells, for two columns that it has to declare.
* `TinyFile.project`: The table between two columns.
* `MappingTable.ofTiny`: The table that a text spells.
-/

namespace AccessWidener

/-- A row of a mapping file. The names have one entry per column; owner and descriptor are spelled
    in the first column. -/
inductive TinyRow where
  | type (names : List String)
  | member (kind : MemberKind) (owner descriptor : String) (names : List String)
deriving DecidableEq, Repr

namespace TinyRow

/-- The words of a line, one per tab-separated cell. -/
def cells (line : List Char) : List String :=
  (line.splitOn '\t').map String.ofList

/-- The names of a row. The first column must not be empty and fills in for every other one. -/
def names (columns line : Nat) (cells : List String) : Except MappingFault (List String) :=
  match cells with
  | first :: _ =>
    if cells.length ≠ columns || first = "" then
      .error (.defect line (.nameCount columns cells.length))
    else .ok (cells.map fun cell => if cell = "" then first else cell)
  | [] => .error (.defect line (.nameCount columns 0))

/-- The kind of member that a row letter announces. -/
def memberKind? (letter : String) : Option MemberKind :=
  if letter = "m" then some .method else if letter = "f" then some .field else none

/-- A member row below the class `owner?`, from the cells after its letter. -/
def ofMemberCells (columns line : Nat) (owner? : Option String) (kind : MemberKind)
    (cells : List String) : Except MappingFault TinyRow :=
  match owner? with
  | none => .error (.defect line .memberOutsideClass)
  | some owner =>
    match cells with
    | [] => .error (.defect line .missingDescriptor)
    | descriptor :: rest => do
      let names ← names columns line rest
      return .member kind owner descriptor names

/-- The row of a line, if it holds one, below the class `owner?`. Indentation tells rows apart:
    classes have none, their members one tab, and whatever lies deeper is skipped. -/
def ofLine? (columns number : Nat) (owner? : Option String) (line : List Char) :
    Except MappingFault (Option TinyRow) :=
  let depth := (line.takeWhile (· = '\t')).length
  match depth, cells (line.drop depth) with
  | 0, letter :: rest =>
    if letter = "c" then do
      let names ← names columns number rest
      return some (.type names)
    else if letter = "" then .ok none
    else .error (.defect number (.unknownSection letter))
  | 1, letter :: rest =>
    match memberKind? letter with
    | some kind => some <$> ofMemberCells columns number owner? kind rest
    | none => .ok none
  | _, _ => .ok none

/-- The class, spelled in the first column, that the rows after this one belong to. -/
def nextOwner (owner? : Option String) : Option TinyRow → Option String
  | some (.type names) => names.head?
  | _ => owner?

/-- The rows of the lines that start with number `number`, below the class `owner?`. -/
def ofLines (columns number : Nat) (owner? : Option String) :
    List (List Char) → Except MappingFault (List TinyRow)
  | [] => .ok []
  | line :: rest => do
    let row? ← ofLine? columns number owner? line
    let rows ← ofLines columns (number + 1) (nextOwner owner? row?) rest
    return row?.toList ++ rows

end TinyRow

/-- A mapping file: the names of its columns, and its rows in order. -/
structure TinyFile where
  columns : List String
  rows : List TinyRow
deriving DecidableEq, Repr

namespace TinyFile

/-- The columns that a header line declares: after the format, its version and a minor version
    there are at least two. -/
def parseHeader (line : List Char) : Except MappingFault (List String) :=
  match TinyRow.cells line with
  | "tiny" :: "2" :: _ :: columns =>
    if columns.length < 2 then .error (.defect 1 .badHeader) else .ok columns
  | _ => .error (.defect 1 .badHeader)

/-- The number of the column for a namespace. -/
def columnOf (columns : List String) (ns : Namespace) : Except MappingFault Nat :=
  match columns.idxOf? ns.token with
  | some column => .ok column
  | none => .error (.missingNamespace ns)

/-- The columns that a table is projected on. -/
structure Projection where
  source : Nat
  target : Nat
deriving DecidableEq, Repr

/-- The file that a text spells and its columns for two namespaces. The columns are looked for
    before any row is read. -/
def parse (text : List Char) (source target : Namespace) :
    Except MappingFault (TinyFile × Projection) :=
  match Text.lines text with
  | [] => .error (.defect 1 .empty)
  | header :: lines => do
    let columns ← parseHeader header
    let sourceColumn ← columnOf columns source
    let targetColumn ← columnOf columns target
    let rows ← TinyRow.ofLines columns.length 2 none lines
    return ({ columns, rows }, { source := sourceColumn, target := targetColumn })

/-- The name in a column. -/
def nameIn (column : Nat) (names : List String) : String :=
  names.getD column ""

/-- The names of classes in a column, by those in the first one. -/
def typeNames (column : Nat) (rows : List TinyRow) : Std.ExtTreeMap String String :=
  rows.foldl (fun held row =>
    match row with
    | .type names => held.insert (nameIn 0 names) (nameIn column names)
    | .member .. => held) ∅

/-- The table with a class row added. -/
def addTypeRow (projection : Projection) (table : MappingTable) : TinyRow → MappingTable
  | .type names => table.addType (nameIn projection.source names) (nameIn projection.target names)
  | .member .. => table

/-- The key of a member row: its owner, name and descriptor in the source column. -/
def memberKey (projection : Projection) (toSource : Std.ExtTreeMap String String)
    (owner descriptor : String) (names : List String) : MemberRef where
  owner := toSource.getD owner owner
  signature :=
    { name := nameIn projection.source names
      descriptor := Descriptor.rename (toSource[·]?) descriptor }

/-- The table with a member row added. -/
def addMemberRow (projection : Projection) (toSource : Std.ExtTreeMap String String)
    (table : MappingTable) : TinyRow → MappingTable
  | .type _ => table
  | .member kind owner descriptor names =>
    table.addMember kind (memberKey projection toSource owner descriptor names)
      (nameIn projection.target names)

/-- The table between two columns of a file. -/
def project (projection : Projection) (rows : List TinyRow) (empty : MappingTable) :
    MappingTable :=
  let withTypes := rows.foldl (addTypeRow projection) empty
  rows.foldl (addMemberRow projection (typeNames projection.source rows)) withTypes

end TinyFile

/-- The table between two namespaces that the text of a mapping file spells. -/
def MappingTable.ofTiny (text : List Char) (source target : Namespace) :
    Except MappingFault MappingTable := do
  let (file, projection) ← TinyFile.parse text source target
  return TinyFile.project projection file.rows (.between source target)

/-- The table between two namespaces that a mapping file holds. -/
def MappingTable.load (tree : FileTree) (path : Path) (source target : Namespace) :
    Except MappingFault MappingTable :=
  match tree.readText path with
  | .error fault => .error (.storage fault)
  | .ok text => MappingTable.ofTiny text source target

end AccessWidener
