import AccessWidener.Directive.Basic
import AccessWidener.Mod.Platform
import AccessWidener.Text.Toml.Document

/-!
# Settings

Settings name the namespace that dependencies are published in, the namespace that the widened
archive is compiled against, and the platforms whose metadata is consulted. They are read from a
TOML document in which every key is optional and unknown keys are ignored.

## Main definitions

* `Settings`: The settings, with their defaults.
* `Settings.validate`: Whether settings fit together.
* `Settings.parse`: The settings that a document spells.
* `Overrides`, `Settings.override`: Settings replaced one by one.
-/

namespace AccessWidener

/-- Why settings do not fit together. -/
inductive SettingsConflict where
  | sameNamespace (ns : Namespace)
  | noPlatform
  | srgWithoutForge
deriving DecidableEq, Repr

/-- The wording of a conflict. -/
def SettingsConflict.message : SettingsConflict → String
  | sameNamespace ns => s!"source_namespace and target_namespace are both {ns.token}"
  | noPlatform => "at least one mod platform is required"
  | srgWithoutForge => "the srg namespace is only available on Forge"

/-- Why a document gives no settings. -/
inductive SettingsFault where
  | unreadable
  | conflict (cause : SettingsConflict)
deriving DecidableEq, Repr

/-- The settings of a run. Scanning in parallel or in sequence gives the same answers. -/
structure Settings where
  source : Namespace := .intermediary
  target : Namespace := .named
  platforms : List Platform := [.fabric]
  parallel : Bool := true
deriving DecidableEq, Repr

namespace Settings

/-- Checks that settings fit together: two different namespaces, at least one platform, and the
    `srg` namespace on Forge only. -/
def validate (settings : Settings) : Except SettingsConflict Unit :=
  if settings.source = settings.target then .error (.sameNamespace settings.source)
  else if settings.platforms = [] then .error .noPlatform
  else if (settings.source = .srg ∨ settings.target = .srg) ∧ .forge ∉ settings.platforms then
    .error .srgWithoutForge
  else .ok ()

/-- Whether a value holds nothing. -/
def isVoid : Toml → Bool
  | .array elements => elements.isEmpty
  | .table _ entries => entries.isEmpty
  | .tables elements => elements.isEmpty
  | _ => false

/-- The word that a value spells: a string, or the only key of a table with nothing in it. -/
def wordOf : Toml → Option String
  | .string text => some text
  | .table _ [(key, value)] => if isVoid value then some key else none
  | _ => none

/-- The namespace that a value spells. -/
def namespaceOf (value : Toml) : Option Namespace :=
  (wordOf value).bind Namespace.ofToken?

/-- The platform that a value spells. -/
def platformOf (value : Toml) : Option Platform :=
  (wordOf value).bind Platform.ofToken?

/-- The platforms that an array spells. -/
def platformsOf : Toml → Option (List Platform)
  | .array elements => elements.mapM platformOf
  | .tables elements => elements.mapM fun entries => platformOf (.table .opened entries)
  | _ => none

/-- A truth value. -/
def booleanOf : Toml → Option Bool
  | .boolean value => some value
  | _ => none

/-- The value of a key, read by `read`, or its default if the key is missing. -/
def valueOr {α : Type} (entries : Toml.Entries) (key : String) (read : Toml → Option α)
    (default : α) : Option α :=
  match Toml.find? entries key with
  | none => some default
  | some value => read value

/-- The settings that the entries of a document spell, whether or not they fit together. -/
def ofEntries (entries : Toml.Entries) : Option Settings := do
  let defaults : Settings := {}
  let source ← valueOr entries "source_namespace" namespaceOf defaults.source
  let target ← valueOr entries "target_namespace" namespaceOf defaults.target
  let platforms ← valueOr entries "platforms" platformsOf defaults.platforms
  let parallel ← valueOr entries "parallel_discovery" booleanOf defaults.parallel
  return { source, target, platforms, parallel }

/-- Settings, if they fit together. -/
def checked (settings : Settings) : Except SettingsFault Settings :=
  match settings.validate with
  | .ok () => .ok settings
  | .error cause => .error (.conflict cause)

/-- The settings that a document spells, if they fit together. -/
def parse (text : List Char) : Except SettingsFault Settings :=
  match (Toml.parse text).bind ofEntries with
  | none => .error .unreadable
  | some settings => settings.checked

end Settings

/-- Settings to be replaced. An empty list of platforms replaces nothing. -/
structure Overrides where
  source : Option Namespace := none
  target : Option Namespace := none
  platforms : List Platform := []
deriving DecidableEq, Repr

/-- Settings with the given ones replaced. -/
def Settings.override (settings : Settings) (overrides : Overrides) : Settings :=
  { settings with
    source := overrides.source.getD settings.source
    target := overrides.target.getD settings.target
    platforms := if overrides.platforms = [] then settings.platforms else overrides.platforms }

end AccessWidener
