/-!
# Descriptors

A descriptor spells the types of a field or method. Wherever it refers to a class it holds the
letter `L`, the name of the class and a semicolon. Renaming looks for such references from left to
right and leaves everything else as it is; a reference that is never closed is left alone too.

## Main definitions

* `Descriptor.renameChars`: Renaming in a list of characters.
* `Descriptor.rename`: Renaming in a descriptor.
-/

namespace AccessWidener

namespace Descriptor

/-- The name that replaces a class name, itself when the map does not know it. -/
def renamed (names : String → Option String) (name : List Char) : List Char :=
  ((names (String.ofList name)).map String.toList).getD name

/-- Renames the class references of a text. While a reference is being read, `open?` holds the
    letters of its name so far, the last one first. -/
def renameChars (names : String → Option String) (open? : Option (List Char)) :
    List Char → List Char
  | [] =>
    match open? with
    | none => []
    | some letters => letters.reverse
  | c :: rest =>
    match open? with
    | none =>
      if c = 'L' then 'L' :: renameChars names (some []) rest
      else c :: renameChars names none rest
    | some letters =>
      if c = ';' then renamed names letters.reverse ++ ';' :: renameChars names none rest
      else renameChars names (some (c :: letters)) rest

/-- A descriptor with every class reference renamed. -/
def rename (names : String → Option String) (descriptor : String) : String :=
  String.ofList (renameChars names none descriptor.toList)

end Descriptor

end AccessWidener
