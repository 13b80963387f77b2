import AccessWidener.Text.Utf8

/-!
# JSON

Strict JSON, read from bytes: one value with nothing but blanks around it. A string whose bytes or
escapes do not denote Unicode text is well formed but has no text, so that it can be passed over
where its text is not asked for. Objects keep their members in order, repeated names included.

## Main definitions

* `Json`: A value.
* `Json.parse`: The value that a byte string spells.
* `Json.render`: The text of a value, indented by two blanks per level.
-/

namespace AccessWidener

/-- A JSON value. A string without text is one that does not denote Unicode text. -/
inductive Json where
  | null
  | boolean (value : Bool)
  | number (literal : String)
  | string (text? : Option String)
  | array (elements : List Json)
  | object (members : List (Option String × Json))

namespace Json

/-- The string of a text. -/
def text (value : String) : Json :=
  .string (some value)

/-- The number of a count. -/
def natural (value : Nat) : Json :=
  .number (toString value)

/-- The object with the given members. -/
def record (members : List (String × Json)) : Json :=
  .object (members.map fun (name, value) => (some name, value))

/-- A piece of a string: a byte that stands for itself, or a UTF-16 unit that was escaped. -/
inductive StringItem where
  | byte (b : UInt8)
  | unit (u : Nat)
deriving DecidableEq, Repr

/-- The value of a hexadecimal digit. -/
def hexValue? (b : UInt8) : Option Nat :=
  let c := Char.ofNat b.toNat
  if c.isDigit then some (c.toNat - '0'.toNat)
  else if 'a' ≤ c ∧ c ≤ 'f' then some (c.toNat - 'a'.toNat + 10)
  else if 'A' ≤ c ∧ c ≤ 'F' then some (c.toNat - 'A'.toNat + 10)
  else none

/-- The value of four hexadecimal digits. -/
def hexUnit? (a b c d : UInt8) : Option Nat := do
  return (((← hexValue? a) * 16 + (← hexValue? b)) * 16 + (← hexValue? c)) * 16 + (← hexValue? d)

/-- The byte that a one-letter escape stands for. -/
def escaped? (b : UInt8) : Option UInt8 :=
  match Char.ofNat b.toNat with
  | '"' => some 0x22
  | '\\' => some 0x5C
  | '/' => some 0x2F
  | 'b' => some 0x08
  | 'f' => some 0x0C
  | 'n' => some 0x0A
  | 'r' => some 0x0D
  | 't' => some 0x09
  | _ => none

/-- A string with one more piece in front. -/
def consItem (item : StringItem) (read : Option (List StringItem × Bytes)) :
    Option (List StringItem × Bytes) :=
  read.map fun (items, rest) => (item :: items, rest)

/-- The pieces of a string after its opening quote, and what follows its closing quote. -/
def readStringItems : Bytes → Option (List StringItem × Bytes)
  | [] => none
  | 0x22 :: rest => some ([], rest)
  | 0x5C :: 0x75 :: a :: b :: c :: d :: rest =>
    match hexUnit? a b c d with
    | some u => consItem (.unit u) (readStringItems rest)
    | none => none
  | 0x5C :: e :: rest =>
    match escaped? e with
    | some b => consItem (.byte b) (readStringItems rest)
    | none => none
  | b :: rest => if b < 0x20 then none else consItem (.byte b) (readStringItems rest)

/-- The UTF-8 bytes that the pieces of a string stand for. A high surrogate needs a low one right
    behind it, and a low surrogate may not stand elsewhere. -/
def bytesOfItems : List StringItem → Option Bytes
  | [] => some []
  | .byte b :: rest => (bytesOfItems rest).map (b :: ·)
  | .unit high :: .unit low :: rest =>
    if 0xD800 ≤ high ∧ high ≤ 0xDBFF then
      if 0xDC00 ≤ low ∧ low ≤ 0xDFFF then
        let c := Char.ofNat (0x10000 + (high - 0xD800) * 0x400 + (low - 0xDC00))
        (bytesOfItems rest).map (String.utf8EncodeChar c ++ ·)
      else none
    else if 0xDC00 ≤ high ∧ high ≤ 0xDFFF then none
    else (bytesOfItems (.unit low :: rest)).map (String.utf8EncodeChar (Char.ofNat high) ++ ·)
  | .unit u :: rest =>
    if 0xD800 ≤ u ∧ u ≤ 0xDFFF then none
    else (bytesOfItems rest).map (String.utf8EncodeChar (Char.ofNat u) ++ ·)

/-- The text that the pieces of a string denote. -/
def textOfItems (items : List StringItem) : Option String := do
  match Utf8.decode (← bytesOfItems items) with
  | .ok text => some (String.ofList text)
  | .error _ => none

/-- Space, tab, line feed and carriage return. -/
def isBlank (b : UInt8) : Bool :=
  b = 0x20 || b = 0x09 || b = 0x0A || b = 0x0D

/-- What follows the blanks at the start. -/
def skipBlanks (bytes : Bytes) : Bytes :=
  bytes.dropWhile isBlank

/-- Whether a byte is an ASCII digit. -/
def isDigit (b : UInt8) : Bool :=
  0x30 ≤ b && b ≤ 0x39

/-- At least one digit, and what follows. -/
def readDigits (bytes : Bytes) : Option (Bytes × Bytes) :=
  match bytes.takeWhile isDigit with
  | [] => none
  | digits => some (digits, bytes.dropWhile isDigit)

/-- The part of a number before its point: digits without a leading zero, or a single zero. -/
def readWhole : Bytes → Option (Bytes × Bytes)
  | 0x30 :: rest => if rest.head?.any isDigit then none else some ([0x30], rest)
  | bytes => readDigits bytes

/-- The point of a number and the digits behind it, if there is a point. -/
def readFraction : Bytes → Option (Bytes × Bytes)
  | 0x2E :: rest => (readDigits rest).map fun (digits, left) => (0x2E :: digits, left)
  | bytes => some ([], bytes)

/-- The exponent of a number, if there is one. -/
def readExponent : Bytes → Option (Bytes × Bytes)
  | [] => some ([], [])
  | e :: rest =>
    if e = 0x65 ∨ e = 0x45 then
      match rest with
      | [] => none
      | sign :: unsigned =>
        if sign = 0x2B ∨ sign = 0x2D then
          (readDigits unsigned).map fun (digits, left) => (e :: sign :: digits, left)
        else (readDigits rest).map fun (digits, left) => (e :: digits, left)
    else some ([], e :: rest)

/-- A number. -/
def readNumber (bytes : Bytes) : Option (Json × Bytes) := do
  let (sign, unsigned) := match bytes with
    | 0x2D :: rest => ([(0x2D : UInt8)], rest)
    | _ => ([], bytes)
  let (whole, rest) ← readWhole unsigned
  let (fraction, rest) ← readFraction rest
  let (exponent, rest) ← readExponent rest
  let literal := Utf8.decodeLossy (sign ++ whole ++ fraction ++ exponent)
  return (number (String.ofList literal), rest)

/-- A string, after its opening quote. -/
def readString (bytes : Bytes) : Option (Option String × Bytes) :=
  (readStringItems bytes).map fun (items, rest) => (textOfItems items, rest)

/-- A known word and then the value it stands for. -/
def readWord (word : String) (value : Json) (bytes : Bytes) : Option (Json × Bytes) :=
  ((Utf8.encodeString word).isPrefixOf? bytes).map fun rest => (value, rest)

mutual

/-- A value, with any blanks in front of it. Every other call takes at least one byte off. -/
def readValue (fuel : Nat) (bytes : Bytes) : Option (Json × Bytes) :=
  match fuel with
  | 0 => none
  | fuel + 1 =>
    match skipBlanks bytes with
    | 0x7B :: rest =>
      match skipBlanks rest with
      | 0x7D :: rest => some (object [], rest)
      | _ => (readMembers fuel rest).map fun (members, rest) => (object members, rest)
    | 0x5B :: rest =>
      match skipBlanks rest with
      | 0x5D :: rest => some (array [], rest)
      | _ => (readElements fuel rest).map fun (elements, rest) => (array elements, rest)
    | 0x22 :: rest => (readString rest).map fun (text?, rest) => (string text?, rest)
    | 0x6E :: rest => readWord "ull" null rest
    | 0x74 :: rest => readWord "rue" (boolean true) rest
    | 0x66 :: rest => readWord "alse" (boolean false) rest
    | bytes => readNumber bytes

/-- The elements of an array, up to its closing bracket. -/
def readElements (fuel : Nat) (bytes : Bytes) : Option (List Json × Bytes) :=
  match fuel with
  | 0 => none
  | fuel + 1 =>
    match readValue fuel bytes with
    | none => none
    | some (element, rest) =>
      match skipBlanks rest with
      | 0x5D :: rest => some ([element], rest)
      | 0x2C :: rest =>
        (readElements fuel rest).map fun (elements, rest) => (element :: elements, rest)
      | _ => none

/-- The members of an object, up to its closing brace. -/
def readMembers (fuel : Nat) (bytes : Bytes) : Option (List (Option String × Json) × Bytes) :=
  match fuel with
  | 0 => none
  | fuel + 1 =>
    match skipBlanks bytes with
    | 0x22 :: rest =>
      match readString rest with
      | none => none
      | some (name?, rest) =>
        match skipBlanks rest with
        | 0x3A :: rest =>
          match readValue fuel rest with
          | none => none
          | some (value, rest) =>
            match skipBlanks rest with
            | 0x7D :: rest => some ([(name?, value)], rest)
            | 0x2C :: rest =>
              (readMembers fuel rest).map fun (members, rest) => ((name?, value) :: members, rest)
            | _ => none
        | _ => none
    | _ => none

end

/-- The value that a byte string spells. -/
def parse (bytes : Bytes) : Option Json :=
  match readValue (2 * bytes.length + 2) bytes with
  | some (value, rest) => if (skipBlanks rest).isEmpty then some value else none
  | none => none

/-- The form of a character inside a string. -/
def escapeChar (c : Char) : List Char :=
  if c = '"' then ['\\', '"']
  else if c = '\\' then ['\\', '\\']
  else if c = '\x08' then ['\\', 'b']
  else if c = '\t' then ['\\', 't']
  else if c = '\n' then ['\\', 'n']
  else if c = '\x0c' then ['\\', 'f']
  else if c = '\r' then ['\\', 'r']
  else if c.toNat < 0x20 then
    ['\\', 'u', '0', '0', Bytes.hexDigit (c.toNat / 16), Bytes.hexDigit (c.toNat % 16)]
  else [c]

/-- The text of a string, in quotes. -/
def quote (text : String) : String :=
  "\"" ++ String.ofList (text.toList.flatMap escapeChar) ++ "\""

/-- The start of a line at a level of nesting. -/
def indentation (level : Nat) : String :=
  String.ofList ('\n' :: List.replicate (2 * level) ' ')

/-- The items of a container between its brackets, each on a line of its own. -/
def enclose (opening closing : String) (level : Nat) : List String → String
  | [] => opening ++ closing
  | items =>
    opening ++ ",".intercalate (items.map (indentation (level + 1) ++ ·)) ++
      indentation level ++ closing

mutual

/-- The text of a value at a level of nesting. -/
def renderAt (level : Nat) : Json → String
  | null => "null"
  | boolean value => if value then "true" else "false"
  | number literal => literal
  | string text? => quote (text?.getD "")
  | array elements => enclose "[" "]" level (renderElements (level + 1) elements)
  | object members => enclose "\x7b" "\x7d" level (renderMembers (level + 1) members)

/-- The texts of the elements of an array. -/
def renderElements (level : Nat) : List Json → List String
  | [] => []
  | element :: rest => renderAt level element :: renderElements level rest

/-- The texts of the members of an object. -/
def renderMembers (level : Nat) : List (Option String × Json) → List String
  | [] => []
  | (name?, value) :: rest =>
    (quote (name?.getD "") ++ ": " ++ renderAt level value) :: renderMembers level rest

end

/-- The text of a value, indented by two blanks per level. -/
def render (value : Json) : String :=
  renderAt 0 value

end Json

end AccessWidener
