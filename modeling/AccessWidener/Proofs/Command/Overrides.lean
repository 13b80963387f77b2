import Mathlib.Control.Monad.Basic
import AccessWidener.Command.Preparation
import AccessWidener.Proofs.Except

/-!
# Options Over a Configuration File

Settings are checked twice on their way into a command: the record of a configuration file when the
file is read, and what the options make of it before it is used. The second check is the one that
options are about, and the first one has seen none of them. So options replace what a file says, but
only in a file that could have done without them: a record with a conflict is refused although an
option may have settled it.

What the two checks leave is stated for the record that a command starts from, whether it comes from
a file or from the defaults, which have no conflict. Values that are replaced have no say among
records without a conflict, and a record with one is refused for it whatever is replaced.

## Main definitions

* `SettingsConflict.In`: What a conflict finds in settings.
* `SettingsConflict.Replaced`: Something that a conflict is about is replaced.
* `Overrides.AgreeBesides`: Two records agree in all that is not replaced.
* `Options.StartsFrom`: The record that options are laid over.

## Theorems

* `validate_eq_ok_iff`: Settings fit together if there is no conflict in them.
* `override_eq_override_iff`: Replacing makes no difference between records that agree besides.
* `replaced_of_settled`: A conflict goes away only if something that it is about is replaced.
* `exists_settled_iff`: The options that settle the conflict of some record.
* `loadSettings_of_validate`, `loadSettings_of_conflict`: The two checks, one after the other.
* `loadSettings_exact`: What becomes of a record and the options laid over it.
-/

namespace AccessWidener

/-! ### Conflicts -/

/-- What a conflict finds in settings. -/
def SettingsConflict.In (settings : Settings) : SettingsConflict → Prop
  | sameNamespace ns => settings.source = ns ∧ settings.target = ns
  | noPlatform => settings.platforms = []
  | srgWithoutForge =>
    (settings.source = .srg ∨ settings.target = .srg) ∧ .forge ∉ settings.platforms

namespace Settings

/-- The conflict that is reported is there. -/
theorem in_of_validate {settings : Settings} {cause : SettingsConflict}
    (h : settings.validate = .error cause) : cause.In settings := by
  unfold validate at h
  -- The checks come one after another: namespaces, platforms, Forge.
  split at h
  next hsame =>
    cases h
    exact ⟨rfl, hsame.symm⟩
  next =>
    split at h
    next hplatforms =>
      cases h
      exact hplatforms
    next =>
      split at h
      next hsrg =>
        cases h
        exact hsrg
      next => cases h

/-- Settings fit together if there is no conflict in them. -/
theorem validate_eq_ok_iff (settings : Settings) :
    settings.validate = .ok () ↔ ∀ cause : SettingsConflict, ¬cause.In settings := by
  constructor
  · intro h cause hcause
    unfold validate at h
    cases cause with
    | sameNamespace ns =>
        rw [if_pos (hcause.1.trans hcause.2.symm)] at h
        cases h
    | noPlatform =>
        -- An earlier check may report first, but none of them lets the record through.
        rw [if_pos (show settings.platforms = [] from hcause)] at h
        split at h <;> cases h
    | srgWithoutForge =>
        rw [if_pos (show (settings.source = .srg ∨ settings.target = .srg) ∧
          .forge ∉ settings.platforms from hcause)] at h
        split at h
        · cases h
        · split at h <;> cases h
  · intro h
    -- What a failed check reports is in the record.
    cases hvalidate : settings.validate with
    | ok _ => rfl
    | error cause => exact absurd (in_of_validate hvalidate) (h cause)

/-- Checked settings are the settings themselves. -/
theorem checked_eq_ok_iff (settings result : Settings) :
    settings.checked = .ok result ↔ result = settings ∧ result.validate = .ok () := by
  unfold checked
  cases hvalidate : settings.validate with
  | ok _ =>
      constructor
      · intro h
        cases h
        exact ⟨rfl, hvalidate⟩
      · rintro ⟨rfl, -⟩
        rfl
  | error cause =>
      refine iff_of_false (fun h => by cases h) ?_
      rintro ⟨rfl, h⟩
      rw [hvalidate] at h
      cases h

/-- Settings with a conflict do not pass. -/
theorem checked_of_conflict {settings : Settings} {cause : SettingsConflict}
    (h : settings.validate = .error cause) : settings.checked = .error (.conflict cause) := by
  rw [checked, h]

end Settings

/-! ### Replacing -/

/-- Two records agree in all that is not replaced. -/
structure Overrides.AgreeBesides (overrides : Overrides) (one other : Settings) : Prop where
  source : overrides.source = none → one.source = other.source
  target : overrides.target = none → one.target = other.target
  platforms : overrides.platforms = [] → one.platforms = other.platforms
  parallel : one.parallel = other.parallel

/-- Replacing something means to give one of the namespaces, or platforms. -/
theorem Overrides.ne_empty_iff (overrides : Overrides) :
    overrides ≠ {} ↔
      overrides.source ≠ none ∨ overrides.target ≠ none ∨ overrides.platforms ≠ [] := by
  cases overrides
  simp only [ne_eq, mk.injEq, not_and_or]

namespace Settings

variable {overrides : Overrides}

/-- The value to fall back on matters only if none was given. -/
theorem getD_eq_getD_iff {α : Type} {given : Option α} {value value' : α} :
    given.getD value = given.getD value' ↔ (given = none → value = value') := by
  cases given with
  | none => exact ⟨fun h _ => h, fun h => h rfl⟩
  | some found => exact iff_of_true rfl (fun h => by cases h)

/-- A value that is not the one to fall back on was given. -/
theorem eq_some_of_getD_ne {α : Type} {given : Option α} {value : α}
    (h : given.getD value ≠ value) : given = some (given.getD value) := by
  cases given with
  | none => exact absurd rfl h
  | some found => rfl

/-- Replacing makes no difference between records that agree besides. -/
theorem override_eq_override_iff (one other : Settings) :
    one.override overrides = other.override overrides ↔ overrides.AgreeBesides one other := by
  simp only [override, mk.injEq, getD_eq_getD_iff]
  constructor
  · rintro ⟨hsource, htarget, hplatforms, hparallel⟩
    -- Platforms given by the options replace those of either record.
    refine ⟨hsource, htarget, fun h => ?_, hparallel⟩
    simpa only [h, if_true] using hplatforms
  · intro h
    refine ⟨h.source, h.target, ?_, h.parallel⟩
    split
    next hplatforms => exact h.platforms hplatforms
    next => rfl

/-- What is replaced once stays the same when it is replaced again. -/
theorem override_override (settings : Settings) :
    (settings.override overrides).override overrides = settings.override overrides := by
  refine (override_eq_override_iff _ _).mpr ⟨fun h => ?_, fun h => ?_, fun h => ?_, rfl⟩
  · rw [override, h, Option.getD_none]
  · rw [override, h, Option.getD_none]
  · rw [override, if_pos h]

/-- A source namespace that replacing changes is the one that was given. -/
theorem source_given {settings : Settings}
    (h : (settings.override overrides).source ≠ settings.source) :
    overrides.source = some (settings.override overrides).source :=
  eq_some_of_getD_ne h

/-- A target namespace that replacing changes is the one that was given. -/
theorem target_given {settings : Settings}
    (h : (settings.override overrides).target ≠ settings.target) :
    overrides.target = some (settings.override overrides).target :=
  eq_some_of_getD_ne h

/-- The platforms after replacing are those that were there, or those that were given. -/
theorem platforms_override (settings : Settings) :
    (settings.override overrides).platforms = settings.platforms ∧ overrides.platforms = [] ∨
      (settings.override overrides).platforms = overrides.platforms ∧ overrides.platforms ≠ [] := by
  unfold override
  by_cases h : overrides.platforms = []
  · exact .inl ⟨if_pos h, h⟩
  · exact .inr ⟨if_neg h, h⟩

end Settings

/-- Something that a conflict is about is replaced: one of the two namespaces by another one, or the
    platforms. -/
def SettingsConflict.Replaced (overrides : Overrides) : SettingsConflict → Prop
  | sameNamespace ns =>
    ∃ given, given ≠ ns ∧ (overrides.source = some given ∨ overrides.target = some given)
  | noPlatform => overrides.platforms ≠ []
  | srgWithoutForge => .forge ∈ overrides.platforms ∨
    ∃ given, given ≠ .srg ∧ (overrides.source = some given ∨ overrides.target = some given)

/-- A conflict goes away only if something that it is about is replaced. -/
theorem replaced_of_settled {base : Settings} {overrides : Overrides} {cause : SettingsConflict}
    (hbase : cause.In base) (hsettled : ¬cause.In (base.override overrides)) :
    cause.Replaced overrides := by
  cases cause with
  | sameNamespace ns =>
      rcases hbase with ⟨hsource, htarget⟩
      rcases not_and_or.mp hsettled with hchanged | hchanged
      · exact ⟨_, hchanged, .inl (Settings.source_given (by rwa [hsource]))⟩
      · exact ⟨_, hchanged, .inr (Settings.target_given (by rwa [htarget]))⟩
  | noPlatform =>
      rcases base.platforms_override with ⟨hkept, -⟩ | ⟨-, hgiven⟩
      · exact absurd (hkept.trans hbase) hsettled
      · exact hgiven
  | srgWithoutForge =>
      rcases hbase with ⟨hsrg, hforge⟩
      by_cases hgiven : .forge ∈ overrides.platforms
      · exact .inl hgiven
      · -- Forge is still missing, so `srg` is no longer used.
        have hmissing : .forge ∉ (base.override overrides).platforms := by
          rcases base.platforms_override with ⟨h, -⟩ | ⟨h, -⟩
          · rwa [h]
          · rwa [h]
        have hunused := fun h => hsettled ⟨h, hmissing⟩
        rcases hsrg with hsource | htarget
        · have hchanged : (base.override overrides).source ≠ .srg := fun h => hunused (.inl h)
          exact .inr ⟨_, hchanged, .inl (Settings.source_given (by rwa [hsource]))⟩
        · have hchanged : (base.override overrides).target ≠ .srg := fun h => hunused (.inr h)
          exact .inr ⟨_, hchanged, .inr (Settings.target_given (by rwa [htarget]))⟩

/-- The options that settle the conflict of some record: all that replace something, unless they are
    in conflict themselves whatever they are laid over. -/
theorem exists_settled_iff (overrides : Overrides) :
    (∃ base : Settings, base.validate ≠ .ok () ∧ (base.override overrides).validate = .ok ()) ↔
      overrides ≠ {} ∧ ∃ base : Settings, (base.override overrides).validate = .ok () := by
  constructor
  · rintro ⟨base, hbase, heffective⟩
    refine ⟨?_, base, heffective⟩
    rintro rfl
    exact hbase heffective
  · rintro ⟨hgiven, base, heffective⟩
    -- Start from the effective record, and put a conflict where it will be replaced.
    have settled (other : Settings) (cause : SettingsConflict) (hcause : cause.In other)
        (hagree : overrides.AgreeBesides other (base.override overrides)) :
        ∃ base : Settings, base.validate ≠ .ok () ∧
          (base.override overrides).validate = .ok () := by
      refine ⟨other, fun h => (Settings.validate_eq_ok_iff other).mp h cause hcause, ?_⟩
      rwa [(Settings.override_eq_override_iff _ _).mpr hagree, Settings.override_override]
    rcases overrides.ne_empty_iff.mp hgiven with hsource | htarget | hplatforms
    · exact settled { base.override overrides with source := (base.override overrides).target }
        (.sameNamespace _) ⟨rfl, rfl⟩
        ⟨fun h => absurd h hsource, fun _ => rfl, fun _ => rfl, rfl⟩
    · exact settled { base.override overrides with target := (base.override overrides).source }
        (.sameNamespace _) ⟨rfl, rfl⟩
        ⟨fun _ => rfl, fun h => absurd h htarget, fun _ => rfl, rfl⟩
    · exact settled { base.override overrides with platforms := [] } .noPlatform rfl
        ⟨fun _ => rfl, fun _ => rfl, fun h => absurd h hplatforms, rfl⟩

/-! ### The record that a command starts from -/

/-- A file can be read and spells a record of settings, whether or not they fit together. -/
def FileTree.Spells (tree : FileTree) (path : Path) (settings : Settings) : Prop :=
  ∃ text, tree.readText path = .ok text ∧
    (Toml.parse text).bind Settings.ofEntries = some settings

/-- A file with a record of settings is read as far as they fit together. -/
theorem readSettings_of_spells {tree : FileTree} {path : Path} {settings : Settings}
    (h : tree.Spells path settings) :
    readSettings tree path = settings.checked.mapError .settings := by
  rcases h with ⟨text, htext, hrecord⟩
  simp only [readSettings, htext, Settings.parse, hrecord]
  cases settings.checked <;> rfl

/-- The record that options are laid over: what the configuration file spells, or else the
    defaults. -/
inductive Options.StartsFrom (tree : FileTree) (options : Options) : Settings → Prop
  | defaults (hconfig : options.config = none) : StartsFrom tree options {}
  | file {path : Path} {base : Settings} (hconfig : options.config = some path)
      (hspells : tree.Spells path base) : StartsFrom tree options base

section

variable {tree : FileTree} {options : Options} {base : Settings}

/-- Over a record without a conflict, options have the last word. -/
theorem loadSettings_of_validate (h : options.StartsFrom tree base)
    (hbase : base.validate = .ok ()) :
    loadSettings tree options =
      (base.override options.overrides).checked.mapError fun fault =>
        .ofFault (.settings fault) := by
  unfold loadSettings
  cases h with
  | defaults hconfig =>
      rw [hconfig]
      simp only [pure_bind]
      cases (Settings.override {} options.overrides).checked <;> rfl
  | @file path _ hconfig hspells =>
      -- The record of the file passes its own check, so the options reach it.
      have hread : readSettings tree path = .ok base := by
        rw [readSettings_of_spells hspells, Settings.checked, hbase]
        rfl
      rw [hconfig]
      simp only [hread, attempt, bind, Except.bind]
      cases (base.override options.overrides).checked <;> rfl

/-- A record with a conflict comes from a file and is refused for it, whatever the options. -/
theorem loadSettings_of_conflict (h : options.StartsFrom tree base) {cause : SettingsConflict}
    (hbase : base.validate = .error cause) :
    ∃ path, options.config = some path ∧
      loadSettings tree options =
        .error (.during s!"Failed to load config {path.spelling}"
          [s!"Invalid configuration: {cause.message}"]) := by
  cases h with
  | defaults hconfig => cases hbase
  | @file path _ hconfig hspells =>
      -- Reading the file fails before any option is looked at.
      have hread : readSettings tree path = .error (.settings (.conflict cause)) := by
        rw [readSettings_of_spells hspells, Settings.checked_of_conflict hbase]
        rfl
      refine ⟨path, hconfig, ?_⟩
      unfold loadSettings
      rw [hconfig]
      simp only [hread, attempt]
      rfl

/-- What becomes of a record and the options laid over it. The settings are the record with what
    the options replace, provided that they fit together and that the record does so by itself. If
    only the settings do not, that is reported; if the record does not, its file is blamed, for all
    options alike. When settings that fit together are refused, it is for a conflict about
    something that the options replaced. What was replaced makes no other difference: two records
    that have no conflict and agree besides end in the same way, from whatever files. -/
theorem loadSettings_exact (h : options.StartsFrom tree base) :
    (∀ settings, loadSettings tree options = .ok settings ↔
      settings = base.override options.overrides ∧ settings.validate = .ok () ∧
        base.validate = .ok ()) ∧
    (∀ cause, base.validate = .ok () →
      (base.override options.overrides).validate = .error cause →
        loadSettings tree options =
          .error { summary := s!"Invalid configuration: {cause.message}" }) ∧
    (∀ cause, base.validate = .error cause → ∃ path, options.config = some path ∧
      ∀ other : Options, other.config = some path → loadSettings tree other =
        .error (.during s!"Failed to load config {path.spelling}"
          [s!"Invalid configuration: {cause.message}"])) ∧
    (∀ cause, base.validate = .error cause →
      (base.override options.overrides).validate = .ok () → cause.Replaced options.overrides) ∧
    (∀ (tree' : FileTree) (options' : Options) (base' : Settings),
      options'.StartsFrom tree' base' → options'.overrides = options.overrides →
        options.overrides.AgreeBesides base base' → base.validate = .ok () →
          base'.validate = .ok () → loadSettings tree' options' = loadSettings tree options) := by
  refine ⟨fun settings => ?_, fun cause hbase heffective => ?_, fun cause hbase => ?_,
    fun cause hbase heffective => ?_,
    fun tree' options' base' h' hoverrides hagree hbase hbase' => ?_⟩
  · -- Two checks stand in the way: that of the record, and that of the effective settings.
    cases hbase : base.validate with
    | ok _ =>
        rw [loadSettings_of_validate h hbase, mapError_eq_ok_iff, Settings.checked_eq_ok_iff,
          eq_self, and_true]
    | error cause =>
        rcases loadSettings_of_conflict h hbase with ⟨path, -, hload⟩
        rw [hload]
        exact iff_of_false (fun h => by cases h) (fun h => by cases h.2.2)
  · rw [loadSettings_of_validate h hbase, Settings.checked_of_conflict heffective]
    rfl
  · rcases h with hconfig | ⟨hconfig, hspells⟩
    · cases hbase
    · -- Other options that name the same file meet the same record, and nothing they replace is
      -- seen.
      refine ⟨_, hconfig, fun other hother => ?_⟩
      rcases loadSettings_of_conflict (.file hother hspells) hbase with ⟨path, hpath, hload⟩
      cases hother.symm.trans hpath
      exact hload
  · exact replaced_of_settled (Settings.in_of_validate hbase)
      ((Settings.validate_eq_ok_iff _).mp heffective cause)
  · -- Behind the first check only the effective settings count, and they are equal.
    rw [loadSettings_of_validate h hbase, loadSettings_of_validate h' hbase', hoverrides,
      (Settings.override_eq_override_iff _ _).mpr hagree]

end

/-- A configuration file for `srg` on Forge. -/
def forgeTree : FileTree where
  nodes := [(["widen.toml"], .file (Utf8.encodeString
    "source_namespace = \"srg\"\nplatforms = [\"forge\"]\n"))]

/-- Options that take the file and another source namespace. -/
def namespaceOptions : Options where
  config := some ⟨"widen.toml"⟩
  source := some .intermediary

/-- The file passes by itself, and the option replaces its namespace. -/
theorem loadSettings_exact_forgeFile :
    namespaceOptions.StartsFrom forgeTree { source := .srg, platforms := [.forge] } ∧
      loadSettings forgeTree namespaceOptions =
        .ok { source := .intermediary, platforms := [.forge] } := by
  have hstarts : namespaceOptions.StartsFrom forgeTree
      { source := .srg, platforms := [.forge] } := by
    refine .file rfl ⟨"source_namespace = \"srg\"\nplatforms = [\"forge\"]\n".toList, ?_, ?_⟩
    · decide +kernel
    · decide +kernel
  exact ⟨hstarts, ((loadSettings_exact hstarts).1 _).mpr ⟨rfl, rfl, rfl⟩⟩

/-- A configuration file for `srg` that leaves the platforms to the options. -/
def srgTree : FileTree where
  nodes := [(["widen.toml"], .file (Utf8.encodeString "source_namespace = \"srg\"\n"))]

/-- Options that take the file and name Forge. -/
def forgeOptions : Options where
  config := some ⟨"widen.toml"⟩
  platforms := [.forge]

/-- With the option in place the settings fit together, but the file is refused for the platform
    that the option replaces. -/
theorem replaced_platform_refused :
    forgeOptions.StartsFrom srgTree { source := .srg } ∧
      (Settings.override { source := .srg } forgeOptions.overrides).validate = .ok () ∧
        loadSettings srgTree forgeOptions =
          .error (.during "Failed to load config widen.toml"
            ["Invalid configuration: the srg namespace is only available on Forge"]) := by
  have hstarts : forgeOptions.StartsFrom srgTree { source := .srg } := by
    refine .file rfl ⟨"source_namespace = \"srg\"\n".toList, ?_, ?_⟩
    · decide +kernel
    · decide +kernel
  refine ⟨hstarts, rfl, ?_⟩
  -- The record alone decides: Forge is given, and the file is refused all the same.
  rcases loadSettings_of_conflict hstarts rfl with ⟨path, hpath, hload⟩
  cases hpath
  exact hload

end AccessWidener
