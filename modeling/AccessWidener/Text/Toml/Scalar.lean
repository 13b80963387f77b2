import AccessWidener.Text.Toml.Quoted
import AccessWidener.Text.Toml.Value

/-!
# Numbers, Dates and Booleans in TOML

Values without quotes or brackets. Integers have to fit a signed 64-bit word. The value of a number
or a date does not matter, only that it is well formed.

## Main definitions

* `Toml.isInteger`, `Toml.isFloat`: The forms of a number.
* `Toml.isDate`, `Toml.isTime`, `Toml.isDateTime`: The forms of dates and times.
* `Toml.plainValue`: A value without quotes or brackets.
-/

namespace AccessWidener

namespace Toml

open Scanner

/-- Digits that may be grouped by single underscores. -/
def isGrouped (p : Char → Bool) (text : List Char) : Bool :=
  (text.splitOn '_').all fun group => group ≠ [] && group.all p

/-- The digits of a number without their underscores. -/
def ungrouped (text : List Char) : List Char :=
  text.filter (· ≠ '_')

/-- A sign at the start of a number, and what follows it. -/
def splitSign : List Char → Bool × List Char
  | '+' :: rest => (false, rest)
  | '-' :: rest => (true, rest)
  | text => (false, text)

/-- Digits without a leading zero, or a single zero. -/
def isWhole (text : List Char) : Bool :=
  isGrouped Char.isDigit text && (text = ['0'] || text.head? ≠ some '0')

/-- One more than the largest number that a signed 64-bit word holds. -/
def integerLimit : Nat := 0x8000000000000000

/-- A number that fits a signed 64-bit word. -/
def isInteger (text : List Char) : Bool :=
  match text with
  | '0' :: 'x' :: digits => isGrouped isHex digits && valueIn 16 (ungrouped digits) < integerLimit
  | '0' :: 'o' :: digits =>
    isGrouped (fun c => '0' ≤ c && c ≤ '7') digits && valueIn 8 (ungrouped digits) < integerLimit
  | '0' :: 'b' :: digits =>
    isGrouped (fun c => c = '0' || c = '1') digits && valueIn 2 (ungrouped digits) < integerLimit
  | _ =>
    let (negative, digits) := splitSign text
    isWhole digits && valueIn 10 (ungrouped digits) < integerLimit + (if negative then 1 else 0)

/-- Whether a digit string times a power of ten lies beyond the double-precision numbers, that is,
    is at least half a step above the largest of them. -/
def overflows (digits : Nat) (exponent : Int) : Bool :=
  let limit := Nat.pow 2 1024 - Nat.pow 2 970
  if digits = 0 then false
  else if 0 ≤ exponent then exponent > 400 || limit ≤ digits * Nat.pow 10 exponent.toNat
  else
    let shift := (-exponent).toNat
    shift ≤ Nat.log2 digits && limit * Nat.pow 10 shift ≤ digits

/-- The exponent that a text spells, empty standing for none. -/
def exponent? (text : List Char) : Option Int :=
  match text with
  | [] => some 0
  | _ :: rest =>
    let (negative, digits) := splitSign rest
    if isGrouped Char.isDigit digits then
      let magnitude : Int := valueIn 10 (ungrouped digits)
      some (if negative then -magnitude else magnitude)
    else none

/-- A number with a fraction, an exponent or both, or one of the special values. A positive number
    that is too large to be finite is refused. -/
def isFloat (text : List Char) : Bool :=
  let (negative, unsigned) := splitSign text
  if unsigned = ['i', 'n', 'f'] || unsigned = ['n', 'a', 'n'] then true
  else
    let mantissa := unsigned.takeWhile fun c => c ≠ 'e' && c ≠ 'E'
    let exponentText := unsigned.dropWhile fun c => c ≠ 'e' && c ≠ 'E'
    let whole := mantissa.takeWhile (· ≠ '.')
    let fraction := (mantissa.dropWhile (· ≠ '.')).drop 1
    let hasPoint := mantissa.contains '.'
    match exponent? exponentText with
    | none => false
    | some exponent =>
      isWhole whole && (hasPoint || exponentText ≠ []) &&
        (!hasPoint || isGrouped Char.isDigit fraction) &&
        (negative || !overflows (valueIn 10 (ungrouped (whole ++ fraction)))
          (exponent - (ungrouped fraction).length))

/-- A number of exactly `n` digits within bounds. -/
def isNumberOf (n low high : Nat) (text : List Char) : Bool :=
  text.length = n && text.all Char.isDigit && low ≤ valueIn 10 text && valueIn 10 text ≤ high

/-- The number of days in a month. -/
def daysIn (year month : Nat) : Nat :=
  if month = 2 then
    if year % 4 = 0 && (year % 100 ≠ 0 || year % 400 = 0) then 29 else 28
  else if month = 4 || month = 6 || month = 9 || month = 11 then 30
  else 31

/-- A calendar date. -/
def isDate (text : List Char) : Bool :=
  match text.splitOn '-' with
  | [year, month, day] =>
    isNumberOf 4 0 9999 year && isNumberOf 2 1 12 month &&
      isNumberOf 2 1 (daysIn (valueIn 10 year) (valueIn 10 month)) day
  | _ => false

/-- A time of day. Second sixty admits leap seconds. -/
def isTime (text : List Char) : Bool :=
  match (text.takeWhile (· ≠ '.')).splitOn ':' with
  | [hour, minute, second] =>
    let fraction := text.dropWhile (· ≠ '.')
    isNumberOf 2 0 23 hour && isNumberOf 2 0 59 minute && isNumberOf 2 0 60 second &&
      (fraction = [] || (fraction.drop 1 ≠ [] && (fraction.drop 1).all Char.isDigit))
  | _ => false

/-- The distance of a local time from universal time, as hours and minutes. -/
def isOffset (text : List Char) : Bool :=
  match text.splitOn ':' with
  | [hour, minute] => isNumberOf 2 0 23 hour && isNumberOf 2 0 59 minute
  | _ => false

/-- A time of day that may be followed by its distance from universal time. -/
def isTimeWithOffset (text : List Char) : Bool :=
  let isSign := fun c : Char => c = 'Z' || c = 'z' || c = '+' || c = '-'
  let time := text.takeWhile (!isSign ·)
  isTime time &&
    match text.dropWhile (!isSign ·) with
    | [] => true
    | sign :: rest => if sign = 'Z' || sign = 'z' then rest = [] else isOffset rest

/-- A date and a time in one word, joined by the letter `T`. -/
def isDateTime (text : List Char) : Bool :=
  isDate (text.take 10) &&
    match text.drop 10 with
    | joint :: time => (joint = 'T' || joint = 't') && isTimeWithOffset time
    | [] => false

/-- Whether a character can belong to a number, a date or a boolean. -/
def isWordChar (c : Char) : Bool :=
  !(isBlank c || c = '\n' || c = '\r' || c = ',' || c = ']' || c = '\x7d' || c = '#')

/-- The time behind a date and a blank. -/
def spacedTime : Scanner Unit := do
  word " "
  let time ← run isWordChar
  check (isTimeWithOffset time)

/-- A value without quotes or brackets. -/
def plainValue : Scanner Toml := do
  let text ← run isWordChar
  if text = ['t', 'r', 'u', 'e'] then return boolean true
  else if text = ['f', 'a', 'l', 's', 'e'] then return boolean false
  else if isDate text then do
    spacedTime <|> pure ()
    return plain
  else do
    check (isInteger text || isFloat text || isTime text || isDateTime text)
    return plain

end Toml

end AccessWidener
