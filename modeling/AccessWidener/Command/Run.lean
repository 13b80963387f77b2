import AccessWidener.Command.Preparation
import AccessWidener.Command.Report

/-!
# Commands

Every command ends in a report or in a failure. Only one command changes a file: the one that
widens an archive.

## Main definitions

* `Command.run`: The files that a command leaves, and its report.
* `Outcome`: How the program ends.
* `execute`: The files that a command line leaves, and how the program ends.
-/

namespace AccessWidener

/-- The report on a directive file, which has to be well formed. -/
def runCheck (tree : FileTree) (path : Path) : Except Failure Json := do
  let contents ← readGiven tree path
  let invalid := fun fault : DirectiveFault =>
    Failure.during s!"Invalid {path.spelling}" [fault.message]
  match readHeader contents with
  | .error fault => .error (invalid fault)
  | .ok header =>
    match (readEvents contents).deliver Recording.visit {} with
    | (_, some fault) => .error (invalid fault)
    | (recording, none) => .ok (checkReport path header recording.directives)

/-- Applies to an archive what dependencies export. If that is nothing, the archive is left
    alone. -/
def runApply (tree : FileTree) (archive : Path) (options : Options) :
    FileTree × Except Failure Json :=
  if !tree.isFile archive then (tree, .error { summary := s!"{archive.spelling} is not a file" })
  else
    match prepare tree options with
    | .error failure => (tree, .error failure)
    | .ok processor =>
      if processor.isEmpty then (tree, .ok (applyReport archive processor false))
      else
        let (left, result) := processor.process tree archive
        (left, (attempt s!"Failed to widen {archive.spelling}" result).map
          (applyReport archive processor))

/-- The files that a command leaves, and its report. -/
def Command.run (tree : FileTree) : Command → FileTree × Except Failure Json
  | .check file => (tree, runCheck tree file)
  | .discover options =>
    (tree, (prepare tree options).map fun processor => .array (processor.files.map fileReport))
  | .key options => (tree, (prepare tree options).map identityReport)
  | .apply archive options => runApply tree archive options

/-- How the program ends: its exit code, and what it writes to the two output streams. -/
structure Outcome where
  exitCode : UInt8
  output : String := ""
  errors : String := ""
deriving DecidableEq, Repr

/-- The text that shows the version. -/
def versionText : String := "widen 0.1.1\n"

/-- The text that shows how the program is used. -/
def usageText : String :=
  "Transitive access widener discovery and application\n\n" ++
  "Usage: widen [--verbose] [--quiet] <command>\n\n" ++
  "  check <file>           Parse an access widener and summarise it\n" ++
  "  discover [options]     List the transitive access wideners on the classpath\n" ++
  "  key [options]          Print the cache identity of the discovered wideners, or null\n" ++
  "  apply <jar> [options]  Apply transitive access wideners to a jar in place\n\n" ++
  "Options: --config <file>, --classpath <path>, --namespace-jar <path>, --mappings <file>,\n" ++
  "  --local <file>, --from <namespace>, --to <namespace>, --platform <platform>\n"

/-- The files that a command line leaves, and how the program ends. -/
def execute (tree : FileTree) (arguments : List String) : FileTree × Outcome :=
  match Request.ofArguments arguments with
  | .help => (tree, { exitCode := 0, output := usageText })
  | .version => (tree, { exitCode := 0, output := versionText })
  | .misuse => (tree, { exitCode := 2, errors := usageText })
  | .run command =>
    match command.run tree with
    | (left, .ok report) => (left, { exitCode := 0, output := report.render ++ "\n" })
    | (left, .error failure) => (left, { exitCode := 1, errors := failure.render })

end AccessWidener
