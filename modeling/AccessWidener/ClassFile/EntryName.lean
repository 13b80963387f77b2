import AccessWidener.Text.Lines

/-!
# Class Names of Archive Entries

An archive stores a class under its internal name with the suffix `.class`. Variants for newer
platform versions live below `META-INF/versions/` and stand for the class that they shadow. Module
descriptors are no classes.

## Main definitions

* `classAtPath?`: The class that an archive entry holds, judged by its path.
-/

namespace AccessWidener

/-- The directory of variants for newer platform versions. -/
def versionedPrefix : String := "META-INF/versions/"

/-- A path without its first component; a path of one component is left alone. -/
def dropFirstComponent (path : String) : String :=
  match path.toList.dropWhile (· ≠ '/') with
  | [] => path
  | _ :: rest => String.ofList rest

/-- The path of the class that an entry shadows, or the path of the entry itself. -/
def unversionedPath (entry : String) : String :=
  match Text.stripStart? versionedPrefix entry with
  | some rest => dropFirstComponent rest
  | none => entry

/-- The internal name of the class that an entry holds, if its path is that of a class. -/
def classAtPath? (entry : String) : Option String :=
  (Text.stripEnd? ".class" (unversionedPath entry)).filter fun name =>
    name ≠ "" && (Text.stripEnd? "module-info" name).isNone

end AccessWidener
