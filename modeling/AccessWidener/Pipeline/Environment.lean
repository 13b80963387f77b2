import AccessWidener.Pipeline.Fault

/-!
# Build Environments

A build environment tells a run which artifacts are on the compile class path, and which archives
are spelled in a namespace.

## Main definitions

* `Environment`: What a run asks of its surroundings.
* `ListedEnvironment`: An environment that is listed explicitly.
-/

namespace AccessWidener

/-- What a run asks of its surroundings. -/
structure Environment where
  artifacts : List Path
  namespaceJars : Namespace → Except EnvironmentFault (List Path)

/-- An environment that is listed explicitly. -/
structure ListedEnvironment where
  platforms : List Platform
  artifacts : List Path := []
  jars : List (Namespace × Path) := []
deriving DecidableEq, Repr

namespace ListedEnvironment

/-- The environment with more artifacts on the compile class path. -/
def addArtifacts (listed : ListedEnvironment) (paths : List Path) : ListedEnvironment :=
  { listed with artifacts := listed.artifacts ++ paths }

/-- The environment with more archives spelled in a namespace. -/
def addNamespaceJars (listed : ListedEnvironment) (ns : Namespace) (paths : List Path) :
    ListedEnvironment :=
  { listed with jars := listed.jars ++ paths.map (ns, ·) }

/-- The archives spelled in a namespace, in the order in which they were listed. Only Forge has
    archives spelled in `srg`. -/
def namespaceJars (listed : ListedEnvironment) (ns : Namespace) :
    Except EnvironmentFault (List Path) :=
  if ns = .srg ∧ .forge ∉ listed.platforms then .error .srgWithoutForge
  else .ok ((listed.jars.filter (·.1 = ns)).map (·.2))

/-- A listed environment as a run sees it. -/
def toEnvironment (listed : ListedEnvironment) : Environment where
  artifacts := listed.artifacts
  namespaceJars := listed.namespaceJars

end ListedEnvironment

end AccessWidener
