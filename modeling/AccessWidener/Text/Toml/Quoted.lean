import AccessWidener.Text.Scanner

/-!
# Strings in TOML

A string stands between double quotes, where a backslash escapes, or between single quotes, where
everything stands for itself. Three quotes open a string that may extend over several lines.

## Main definitions

* `Toml.blanks`, `Toml.lineEnd`, `Toml.spacing`: What separates the parts of a document.
* `Toml.basicString`, `Toml.literalString`: The two notations on one line.
* `Toml.anyString`: A string in any of the four notations.
-/

namespace AccessWidener

namespace Toml

open Scanner

/-- Space and tab. -/
def isBlank (c : Char) : Bool :=
  c = ' ' || c = '\t'

/-- Blanks within a line. -/
def blanks : Scanner Unit := do
  let _ ← run isBlank

/-- A line feed, with or without a carriage return in front. -/
def newline : Scanner Unit :=
  word "\n" <|> word "\r\n"

/-- Tab, printable ASCII, and everything that is not ASCII. -/
def isPrintable (c : Char) : Bool :=
  c = '\t' || (0x20 ≤ c.toNat && c.toNat ≤ 0x7E) || 0x80 ≤ c.toNat

/-- A comment, up to the end of its line. -/
def comment : Scanner Unit := do
  word "#"
  let _ ← run isPrintable

/-- What may stand between the end of an expression and the next line. -/
def lineEnd : Scanner Unit := do
  blanks
  comment <|> pure ()
  newline <|> done

/-- Blanks, comments and line ends between the elements of an array. -/
def spacing : Scanner Unit := do
  let _ ← many ((char isBlank *> pure ()) <|> newline <|> (comment *> newline))

/-! ### Digits -/

/-- The value of a hexadecimal digit. -/
def hexValue (c : Char) : Nat :=
  if c.isDigit then c.toNat - '0'.toNat
  else if c.isLower then c.toNat - 'a'.toNat + 10
  else c.toNat - 'A'.toNat + 10

/-- Whether a character is a hexadecimal digit. -/
def isHex (c : Char) : Bool :=
  c.isDigit || ('a' ≤ c && c ≤ 'f') || ('A' ≤ c && c ≤ 'F')

/-- The number that a list of digits spells in some base. -/
def valueIn (base : Nat) (digits : List Char) : Nat :=
  digits.foldl (fun n c => n * base + hexValue c) 0

/-! ### Notations -/

/-- A character that stands for itself in a string in double quotes. -/
def isBasic (c : Char) : Bool :=
  isPrintable c && c ≠ '\x22' && c ≠ '\\'

/-- A character that stands for itself in a string in single quotes. -/
def isLiteral (c : Char) : Bool :=
  isPrintable c && c ≠ '\x27'

/-- Exactly `n` hexadecimal digits. -/
def hexDigits : Nat → Scanner (List Char)
  | 0 => pure []
  | n + 1 => do
    let first ← char isHex
    let others ← hexDigits n
    return first :: others

/-- The scalar value with a number of `n` hexadecimal digits. -/
def unicodeEscape (n : Nat) : Scanner Char := do
  let code := valueIn 16 (← hexDigits n)
  check (code < 0xD800 || (0xE000 ≤ code && code ≤ 0x10FFFF))
  return Char.ofNat code

/-- The character behind a backslash. -/
def escapeTail : Scanner Char := do
  match ← char (fun _ => true) with
  | 'b' => return '\x08'
  | 't' => return '\t'
  | 'n' => return '\n'
  | 'f' => return '\x0c'
  | 'r' => return '\r'
  | '\x22' => return '\x22'
  | '\\' => return '\\'
  | 'u' => unicodeEscape 4
  | 'U' => unicodeEscape 8
  | _ => failure

/-- An escaped character. -/
def escape : Scanner Char := do
  word "\\"
  escapeTail

/-- A string in double quotes. -/
def basicString : Scanner String := do
  word "\""
  let text ← many (char isBasic <|> escape)
  word "\""
  return String.ofList text

/-- A string in single quotes. -/
def literalString : Scanner String := do
  word "\x27"
  let text ← run isLiteral
  word "\x27"
  return String.ofList text

/-- A backslash at the end of a line takes the line end and all blanks after it with it. -/
def continuation : Scanner (List Char) := do
  word "\\"
  blanks
  newline
  let _ ← many ((char isBlank *> pure ()) <|> newline)
  return []

/-- One or two quotes inside a multi-line string. -/
def innerQuotes (quote : Char) : Scanner (List Char) := do
  let quotes ← run (· = quote)
  check (quotes.length = 1 || quotes.length = 2)
  return quotes

/-- The end of a multi-line string: three quotes, with up to two more in front of them. -/
def closingQuotes (quote : Char) : Scanner (List Char) := do
  let quotes ← run (· = quote)
  check (3 ≤ quotes.length && quotes.length ≤ 5)
  return quotes.drop 3

/-- A multi-line string between three quotes. A line end right after the opening is dropped. -/
def multiline (quote : Char) (item : Scanner (List Char)) : Scanner String := do
  word (String.ofList [quote, quote, quote])
  newline <|> pure ()
  let items ← many (item <|> (newline *> pure ['\n']) <|> innerQuotes quote)
  let last ← closingQuotes quote
  return String.ofList (items.flatten ++ last)

/-- A string in any of the four notations. -/
def anyString : Scanner String :=
  multiline '\x22' ((char isBasic <&> fun c => [c]) <|> (escape <&> fun c => [c]) <|> continuation)
    <|> basicString
    <|> multiline '\x27' (char isLiteral <&> fun c => [c])
    <|> literalString

end Toml

end AccessWidener
