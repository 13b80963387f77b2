/-!
# TOML Values

Numbers and dates are kept without their value, since only strings, booleans, arrays and tables are
asked for. Tables remember how they came about, because that decides which later lines may add to
them: a table that a header opened, or that was written in braces, is complete, one that was only
implied by a longer header may still be opened, and one made by dotted keys grows only through
dotted keys.

## Main definitions

* `TableOrigin`: How a table came about.
* `Toml`: A value.
* `Toml.Entries`, `Toml.find?`: The entries of a table, and the value of a key.
* `Toml.addPairs`: The entries with the values of dotted keys added.
* `Toml.updateAt`: The entries with the one under a header changed.
-/

namespace AccessWidener

/-- How a table came about. -/
inductive TableOrigin where
  | opened
  | implied
  | dotted
  | braces
deriving DecidableEq, Repr

/-- A TOML value. Numbers, dates and times are kept as `plain`; `tables` is an array whose elements
    were opened by headers. -/
inductive Toml where
  | plain
  | string (text : String)
  | boolean (value : Bool)
  | array (elements : List Toml)
  | table (origin : TableOrigin) (entries : List (String × Toml))
  | tables (elements : List (List (String × Toml)))

namespace Toml

/-- The entries of a table, by key. -/
abbrev Entries := List (String × Toml)

/-- The value of a key. -/
def find? (entries : Entries) (key : String) : Option Toml :=
  entries.lookup key

/-- Entries with the value of a key replaced, or added at the end. -/
def set (entries : Entries) (key : String) (value : Toml) : Entries :=
  if entries.any (·.1 = key) then
    entries.map fun entry => if entry.1 = key then (key, value) else entry
  else entries ++ [(key, value)]

/-- Adds a value under a dotted key. Tables on the way are made if they are missing; an existing one
    must not be complete, and the last one must have been made by dotted keys. A key is given a
    value once. -/
def addPair (value : Toml) : List String → Entries → Option Entries
  | [], _ => none
  | [key], entries => if (find? entries key).isSome then none else some (set entries key value)
  | key :: rest, entries =>
    match find? entries key with
    | none => (addPair value rest []).map fun inner => set entries key (table .dotted inner)
    | some (table origin inner) =>
      if origin = .dotted ∨ (origin = .implied ∧ rest.length ≠ 1) then
        (addPair value rest inner).map fun inner => set entries key (table origin inner)
      else none
    | some (tables elements) =>
      if rest.length = 1 then none
      else
        match elements.getLast? with
        | none => none
        | some last => (addPair value rest last).map fun last =>
            set entries key (tables (elements.dropLast ++ [last]))
    | some _ => none

/-- The table of a list of dotted keys and values, added in order to `start`. -/
def addPairs (start : Entries) (pairs : List (List String × Toml)) : Option Entries :=
  pairs.foldlM (fun entries pair => addPair pair.2 pair.1 entries) start

/-- Changes the entry under a header, given what is there. Tables on the way are implied if they are
    missing, and an array of tables is entered at its last element. -/
def updateAt (change : Option Toml → Option Toml) : List String → Entries → Option Entries
  | [], _ => none
  | [key], entries => (change (find? entries key)).map (set entries key)
  | key :: rest, entries =>
    match find? entries key with
    | none => (updateAt change rest []).map fun inner => set entries key (table .implied inner)
    | some (table origin inner) =>
      if origin = .braces then none
      else (updateAt change rest inner).map fun inner => set entries key (table origin inner)
    | some (tables elements) =>
      match elements.getLast? with
      | none => none
      | some last => (updateAt change rest last).map fun last =>
          set entries key (tables (elements.dropLast ++ [last]))
    | some _ => none

end Toml

end AccessWidener
