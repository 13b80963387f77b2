import AccessWidener.Directive.Basic
import AccessWidener.Mod.Platform
import AccessWidener.Storage.Path

/-!
# Command Line Arguments

The command line names one of four commands and gives it options. Options with a value take it from
the next argument, which must not look like an option itself, or after an equals sign. Some may be
repeated; the others, and all switches, are given at most once, although the two global switches may
stand both before and after the name of the command. Arguments are read from left to right, so what
comes first decides whether help is shown or a misuse is reported.

## Main definitions

* `Options`, `Command`: What a command is asked to do.
* `Command.documents`, `Command.artifacts`: The files that a command names.
* `Request`: What a command line asks for.
* `Request.ofArguments`: The request that a list of arguments makes.
-/

namespace AccessWidener

/-- The options of the commands that look for directive files. -/
structure Options where
  config : Option Path := none
  classPath : List Path := []
  namespaceJars : List Path := []
  mappings : Option Path := none
  localFile : Option Path := none
  source : Option Namespace := none
  target : Option Namespace := none
  platforms : List Platform := []
deriving DecidableEq, Repr

/-- What the program can do. -/
inductive Command where
  | check (file : Path)
  | discover (options : Options)
  | key (options : Options)
  | apply (archive : Path) (options : Options)
deriving DecidableEq, Repr

/-- The text files that options name. -/
def Options.documents (options : Options) : List Path :=
  options.config.toList ++ options.mappings.toList ++ options.localFile.toList

/-- The archives that options name, and the directories that hold some. -/
def Options.artifacts (options : Options) : List Path :=
  options.classPath ++ options.namespaceJars

/-- The text files that a command names. -/
def Command.documents : Command → List Path
  | .check file => [file]
  | .discover options | .key options | .apply _ options => options.documents

/-- The archives that a command names, and the directories that hold some. -/
def Command.artifacts : Command → List Path
  | .check _ => []
  | .discover options | .key options => options.artifacts
  | .apply archive options => archive :: options.artifacts

/-- What a command line asks for. -/
inductive Request where
  | run (command : Command)
  | help
  | version
  | misuse
deriving DecidableEq, Repr

namespace Arguments

/-- The names of the commands. -/
inductive CommandName where
  | check
  | discover
  | key
  | apply
deriving DecidableEq, Repr

/-- The command with a name. -/
def CommandName.ofWord? (word : String) : Option CommandName :=
  if word = "check" then some .check
  else if word = "discover" then some .discover
  else if word = "key" then some .key
  else if word = "apply" then some .apply
  else none

/-- Whether a command takes a path, and whether it takes options. -/
def CommandName.takesPath : CommandName → Bool
  | check | apply => true
  | discover | key => false

/-- Whether a command looks for directive files, and so takes options. -/
def CommandName.takesOptions : CommandName → Bool
  | check => false
  | discover | key | apply => true

/-- What has been read of the arguments behind the name of a command. -/
structure Progress where
  path : Option Path := none
  options : Options := {}
  verbose : Bool := false
  quiet : Bool := false

/-- How an argument looks. -/
inductive Shape where
  | plain
  | separator
  | long (name : String) (value : Option String)
  | short (letters : List Char)

/-- The look of an argument. A single dash is an ordinary word. -/
def Shape.of (argument : String) : Shape :=
  match argument.toList with
  | ['-', '-'] => .separator
  | '-' :: '-' :: rest =>
    let name := rest.takeWhile (· ≠ '=')
    match rest.dropWhile (· ≠ '=') with
    | [] => .long (String.ofList name) none
    | _ :: value => .long (String.ofList name) (some (String.ofList value))
  | '-' :: c :: rest => .short (c :: rest)
  | _ => .plain

/-- A path, which must not be empty. -/
def pathOf (value : String) : Option Path :=
  if value = "" then none else some ⟨value⟩

/-- Stores the value of an option that may be given once. -/
def once {α : Type} (held : Option α) (value : Option α) : Option (Option α) :=
  match held with
  | some _ => none
  | none => value.map some

/-- Whether an option of a command takes a value. -/
def takesValue (name : String) : Bool :=
  ["config", "classpath", "namespace-jar", "mappings", "local", "from", "to", "platform"].contains
    name

/-- The options with one more value, unless it is refused. -/
def setOption (options : Options) (name value : String) : Option Options :=
  match name with
  | "config" => (once options.config (pathOf value)).map fun config => { options with config }
  | "classpath" =>
    (pathOf value).map fun path => { options with classPath := options.classPath ++ [path] }
  | "namespace-jar" =>
    (pathOf value).map fun path =>
      { options with namespaceJars := options.namespaceJars ++ [path] }
  | "mappings" =>
    (once options.mappings (pathOf value)).map fun mappings => { options with mappings }
  | "local" =>
    (once options.localFile (pathOf value)).map fun localFile => { options with localFile }
  | "from" =>
    (once options.source (Namespace.ofToken? value)).map fun source => { options with source }
  | "to" =>
    (once options.target (Namespace.ofToken? value)).map fun target => { options with target }
  | "platform" =>
    (Platform.ofName? value).map fun platform =>
      { options with platforms := options.platforms ++ [platform] }
  | _ => none

/-- The command that is complete when its arguments end. -/
def finish (name : CommandName) (progress : Progress) : Request :=
  match name, progress.path with
  | .check, some path => .run (.check path)
  | .apply, some path => .run (.apply path progress.options)
  | .discover, _ => .run (.discover progress.options)
  | .key, _ => .run (.key progress.options)
  | _, none => .misuse

/-- The progress after a path, of which a command takes at most one. -/
def addPath (name : CommandName) (progress : Progress) (word : String) : Option Progress :=
  if name.takesPath && progress.path.isNone then
    (pathOf word).map fun path => { progress with path := some path }
  else none

/-- The effect of a switch: it is taken in, or it settles what the command line asks for. -/
inductive Effect where
  | taken (verbose quiet : Bool)
  | settled (request : Request)

/-- A switch spelled out. -/
def longSwitch (verbose quiet : Bool) (name : String) : Effect :=
  if name = "help" then .settled .help
  else if name = "verbose" ∧ !verbose then .taken true quiet
  else if name = "quiet" ∧ !quiet then .taken verbose true
  else .settled .misuse

/-- Switches of one letter, written together. Only the top level knows its version. -/
def shortSwitches (topLevel verbose quiet : Bool) : List Char → Effect
  | [] => .taken verbose quiet
  | 'h' :: _ => .settled .help
  | 'V' :: _ => .settled (if topLevel then .version else .misuse)
  | 'v' :: rest =>
    if verbose then .settled .misuse else shortSwitches topLevel true quiet rest
  | _ :: _ => .settled .misuse

/-- The paths behind a separator, where nothing is an option any more. -/
def readPaths (name : CommandName) (progress : Progress) : List String → Request
  | [] => finish name progress
  | word :: rest =>
    match addPath name progress word with
    | none => .misuse
    | some next => readPaths name next rest

/-- The request of a command, from the arguments behind its name. -/
def readCommand (name : CommandName) (progress : Progress) : List String → Request
  | [] => finish name progress
  | argument :: rest =>
    match Shape.of argument with
    | .separator => readPaths name progress rest
    | .plain =>
      match addPath name progress argument with
      | none => .misuse
      | some next => readCommand name next rest
    | .short letters =>
      match shortSwitches false progress.verbose progress.quiet letters with
      | .settled request => request
      | .taken verbose quiet => readCommand name { progress with verbose, quiet } rest
    | .long option value? =>
      if name.takesOptions && takesValue option then
        match value? with
        | some value =>
          match setOption progress.options option value with
          | none => .misuse
          | some options => readCommand name { progress with options } rest
        | none =>
          match rest with
          | [] => .misuse
          | value :: others =>
            match Shape.of value, setOption progress.options option value with
            | .plain, some options => readCommand name { progress with options } others
            | _, _ => .misuse
      else
        match value?, longSwitch progress.verbose progress.quiet option with
        | some _, _ => .misuse
        | none, .settled request => request
        | none, .taken verbose quiet => readCommand name { progress with verbose, quiet } rest

/-- A request for help on the command that a list of words leads to. -/
def readHelp : List String → Request
  | [] => .help
  | [word] => if word = "help" ∨ (CommandName.ofWord? word).isSome then .help else .misuse
  | _ => .misuse

/-- The request of a command line, from the switches in front of the name of the command. -/
def readTop (verbose quiet : Bool) : List String → Request
  | [] => .misuse
  | argument :: rest =>
    match Shape.of argument with
    | .separator => .misuse
    | .plain =>
      if argument = "help" then readHelp rest
      else
        match CommandName.ofWord? argument with
        | some name => readCommand name {} rest
        | none => .misuse
    | .short letters =>
      match shortSwitches true verbose quiet letters with
      | .settled request => request
      | .taken verbose quiet => readTop verbose quiet rest
    | .long name value? =>
      match value? with
      | some _ => .misuse
      | none =>
        if name = "version" then .version
        else
          match longSwitch verbose quiet name with
          | .settled request => request
          | .taken verbose quiet => readTop verbose quiet rest

end Arguments

/-- The request that a list of arguments makes. -/
def Request.ofArguments (arguments : List String) : Request :=
  Arguments.readTop false false arguments

end AccessWidener
