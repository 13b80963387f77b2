import AccessWidener.Text.Toml.Scalar

/-!
# TOML Documents

Documents in TOML 1.0: lines that hold a pair of a key and a value, or the header of a table.
Arrays and braces nest less than eighty deep, and a dotted key has less than eighty parts.

## Main definitions

* `Toml.dottedKey`, `Toml.valueWithin`: Keys and values.
* `Toml.Expression`, `Toml.Section`: What lines hold, and the parts of a document.
* `Toml.parse`: The top-level table of a document.
-/

namespace AccessWidener

namespace Toml

open Scanner

/-! ### Keys and values -/

/-- A character of a key without quotes. -/
def isBare (c : Char) : Bool :=
  c.isAlphanum || c = '_' || c = '-'

/-- A key without dots. -/
def simpleKey : Scanner String :=
  basicString <|> literalString <|> (do
    let name ← run isBare
    check (name ≠ [])
    return String.ofList name)

/-- The largest number of parts of a dotted key, and of levels of nesting. -/
def maxDepth : Nat := 79

/-- A key with its parts, with blanks around each of them. -/
def dottedKey : Scanner (List String) := do
  blanks
  let first ← simpleKey
  blanks
  let others ← many do
    word "."
    blanks
    let part ← simpleKey
    blanks
    return part
  check (others.length < maxDepth)
  return first :: others

/-- Elements separated by commas, with a comma allowed after the last one. -/
def elements (element : Scanner Toml) : Scanner (List Toml) :=
  (do
    let first ← element
    spacing
    let others ← many do
      word ","
      spacing
      let next ← element
      spacing
      return next
    word "," <|> pure ()
    return first :: others) <|> pure []

/-- An array in brackets. -/
def arrayOf (element : Scanner Toml) : Scanner Toml := do
  word "["
  spacing
  let found ← elements element
  spacing
  word "]"
  return array found

/-- A key, an equals sign and a value. -/
def pairOf (value : Scanner Toml) : Scanner (List String × Toml) := do
  let key ← dottedKey
  word "="
  blanks
  let found ← value
  return (key, found)

/-- A table in braces, on one line and without a comma after its last pair. -/
def bracesOf (value : Scanner Toml) : Scanner Toml := do
  word "\x7b"
  let pairs ← (do
    let first ← pairOf value
    blanks
    let others ← many do
      word ","
      let next ← pairOf value
      blanks
      return next
    return first :: others) <|> (do
      blanks
      return [])
  word "\x7d"
  match addPairs [] pairs with
  | some entries => return table .braces entries
  | none => failure

/-- A value within which at most `room` brackets and braces may nest. -/
def valueWithin : Nat → Scanner Toml
  | 0 => (anyString <&> string) <|> plainValue
  | room + 1 =>
    (anyString <&> string) <|> arrayOf (valueWithin room) <|> bracesOf (valueWithin room)
      <|> plainValue

/-! ### Lines -/

/-- A line of a document. -/
inductive Expression where
  | blank
  | pair (key : List String) (value : Toml)
  | header (key : List String)
  | arrayHeader (key : List String)

/-- A header in double brackets. -/
def arrayHeader : Scanner Expression := do
  word "[["
  let key ← dottedKey
  word "]]"
  return .arrayHeader key

/-- A header in single brackets. -/
def header : Scanner Expression := do
  word "["
  let key ← dottedKey
  word "]"
  return .header key

/-- What a line holds before its comment. -/
def lineContent : Scanner Expression :=
  arrayHeader <|> header <|> (do
    let (key, value) ← pairOf (valueWithin maxDepth)
    return .pair key value) <|> pure .blank

/-- A line with its end. The text must not be empty. -/
def line : Scanner Expression := do
  check !(← get).isEmpty
  blanks
  let content ← lineContent
  lineEnd
  return content

/-- The table that a header opens, and the pairs below it. -/
structure Section where
  isArray : Bool
  key : List String
  pairs : List (List String × Toml)

/-- The pairs before the first header, and the sections after it. -/
def sectionsOf : List Expression → List (List String × Toml) × List Section
  | [] => ([], [])
  | expression :: rest =>
    let (pairs, sections) := sectionsOf rest
    match expression with
    | .blank => (pairs, sections)
    | .pair key value => ((key, value) :: pairs, sections)
    | .header key => ([], { isArray := false, key, pairs } :: sections)
    | .arrayHeader key => ([], { isArray := true, key, pairs } :: sections)

/-- The table or array that a section leaves under its key, given what was there. -/
def Section.change (opened : Section) (present : Option Toml) : Option Toml :=
  if opened.isArray then
    match present with
    | none => (addPairs [] opened.pairs).map fun entries => tables [entries]
    | some (tables elements) =>
      (addPairs [] opened.pairs).map fun entries => tables (elements ++ [entries])
    | some _ => none
  else
    match present with
    | none => (addPairs [] opened.pairs).map (table .opened)
    | some (table .implied entries) => (addPairs entries opened.pairs).map (table .opened)
    | some _ => none

/-- The text without a byte order mark at its start. -/
def dropMark : List Char → List Char
  | '\uFEFF' :: rest => rest
  | text => text

/-- The top-level table of a document. -/
def parse (text : List Char) : Option Entries := do
  let (expressions, _) ← untilDone line (dropMark text)
  let (pairs, sections) := sectionsOf expressions
  let root ← addPairs [] pairs
  sections.foldlM (fun entries opened => updateAt opened.change opened.key entries) root

end Toml

end AccessWidener
