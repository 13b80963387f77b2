/-!
# Mod Platforms

A mod is built for one or more mod loaders, whose metadata files say where its directives are.

## Main definitions

* `Platform`: The known mod loaders.
* `Platform.ofName?`: The loader with a name, in any mixture of cases.
-/

namespace AccessWidener

/-- A mod loader. -/
inductive Platform where
  | fabric
  | forge
  | quilt
deriving DecidableEq, Repr

namespace Platform

/-- Every platform. -/
def all : List Platform := [fabric, forge, quilt]

/-- The word for a platform. -/
def token : Platform → String
  | fabric => "fabric"
  | forge => "forge"
  | quilt => "quilt"

/-- The platform that a word in lower case stands for. -/
def ofToken? (word : String) : Option Platform :=
  all.find? (·.token = word)

/-- A text with its ASCII letters in lower case. -/
def lowercase (text : String) : String :=
  String.ofList (text.toList.map Char.toLower)

/-- The platform that a word stands for, whatever the case of its ASCII letters. -/
def ofName? (word : String) : Option Platform :=
  ofToken? (lowercase word)

/-- How a word that is no platform is reported. -/
def unknownMessage (word : String) : String :=
  s!"unknown mod platform '{word}'"

/-- Whether support for a platform may change without notice. -/
def isExperimental (platform : Platform) : Bool :=
  platform = quilt

end Platform

end AccessWidener
