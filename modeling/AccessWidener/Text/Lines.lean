/-!
# Lines and Words

A text is cut into lines at line feeds; a carriage return just before a line feed belongs to the
line break, and a final line feed does not open another line. Words are the maximal runs of
characters other than ASCII blanks.

## Main definitions

* `Text.lines`: The lines of a text.
* `Text.words`: The words of a line.
* `Text.stripStart?`, `Text.stripEnd?`: What is left when a known start or end is taken off.
* `Text.readNatural?`: An unsigned decimal numeral below a limit.
-/

namespace AccessWidener

namespace Text

/-- A line without the carriage return that its line break began with. -/
def dropCarriageReturn (line : List Char) : List Char :=
  if line.getLast? = some '\r' then line.dropLast else line

/-- The lines of a text. Only a terminated line loses its carriage return. -/
def lines (text : List Char) : List (List Char) :=
  let segments := text.splitOn '\n'
  let terminated := segments.dropLast.map dropCarriageReturn
  match segments.getLast? with
  | none | some [] => terminated
  | some last => terminated ++ [last]

/-- Space, tab, line feed, form feed and carriage return. -/
def isBlank (c : Char) : Bool :=
  c = ' ' || c = '\t' || c = '\n' || c = '\x0c' || c = '\r'

/-- The maximal runs of characters that are not blank. -/
def words (line : List Char) : List (List Char) :=
  (line.splitOnP isBlank).filter (!·.isEmpty)

/-- What follows `start` in a text that begins with it. -/
def stripStart? (start text : String) : Option String :=
  (start.toList.isPrefixOf? text.toList).map String.ofList

/-- What precedes `ending` in a text that ends with it. -/
def stripEnd? (ending text : String) : Option String :=
  (ending.toList.isSuffixOf? text.toList).map String.ofList

/-- The value of a non-empty string of ASCII digits. -/
def digits? (text : List Char) : Option Nat :=
  if text.isEmpty || !text.all Char.isDigit then none
  else some (text.foldl (fun n c => n * 10 + (c.toNat - '0'.toNat)) 0)

/-- An unsigned decimal numeral below `limit`: an optional plus sign and at least one digit. -/
def readNatural? (limit : Nat) (text : List Char) : Option Nat :=
  let digits := match text with
    | '+' :: rest => rest
    | _ => text
  (digits? digits).filter (· < limit)

end Text

end AccessWidener
