import AccessWidener.Directive.Stream

/-!
# Reading Directive Files

A directive file is UTF-8 text. A number sign starts a comment that lasts to the end of its line,
and lines without words are skipped. The first significant line is the header, `accessWidener`, a
version and a namespace; every further one is a directive. Version 2 adds transitive directives.

## Main definitions

* `SignificantLine`, `significantLines`: The lines that carry words.
* `Header`, `readHeader`, `readVersion`: The header, or its version alone.
* `parseDirective`: The directive of one line.
* `readEvents`: The whole file as a stream.
* `containsTransitive`: Whether a file exports anything.
-/

namespace AccessWidener

/-- A line that carries at least one word, with its number in the file counted from one. -/
structure SignificantLine where
  number : Nat
  first : String
  rest : List String
deriving DecidableEq, Repr

/-- The words of a line before its comment. -/
def uncommentedWords (line : List Char) : List String :=
  (Text.words (line.takeWhile (· ≠ '#'))).map String.ofList

/-- The line numbered `number`, if it carries words. -/
def SignificantLine.ofLine? (number : Nat) (line : List Char) : Option SignificantLine :=
  match uncommentedWords line with
  | [] => none
  | first :: rest => some { number, first, rest }

/-- The significant ones of the lines that start with number `number`. -/
def significantLinesFrom (number : Nat) : List (List Char) → List SignificantLine
  | [] => []
  | line :: rest =>
    (SignificantLine.ofLine? number line).toList ++ significantLinesFrom (number + 1) rest

/-- The lines of a text that carry words. -/
def significantLines (text : List Char) : List SignificantLine :=
  significantLinesFrom 1 (Text.lines text)

/-- The text of a directive file. -/
def decodeText (content : Bytes) : Except DirectiveFault (List Char) :=
  match Utf8.decode content with
  | .ok text => .ok text
  | .error fault => .error (.malformed 0 (.notUtf8 fault))

/-- The format versions that are understood. -/
def supportedVersion (version : Nat) : Bool :=
  version = 1 || version = 2

/-- The version that a version word such as `v2` names. -/
def versionOfWord? (word : String) : Option Nat :=
  match word.toList with
  | 'v' :: numeral => Text.readNatural? UInt32.size numeral
  | _ => none

/-- The version that a header line declares. Only its first two words are looked at. -/
def parseVersion (line : SignificantLine) : Except DirectiveFault Nat :=
  match line.rest with
  | [] => .error (.malformed line.number .badHeader)
  | word :: _ =>
    if line.first ≠ headerMagic then .error (.malformed line.number .badHeader)
    else
      match versionOfWord? word with
      | none => .error (.malformed line.number (.badVersion word))
      | some version =>
        if supportedVersion version then .ok version
        else .error (.malformed line.number (.unsupportedVersion version))

/-- The header of a directive file. -/
structure Header where
  version : Nat
  ns : Namespace
deriving DecidableEq, Repr

/-- The header that a line declares. -/
def parseHeader (line : SignificantLine) : Except DirectiveFault Header := do
  let version ← parseVersion line
  match line.rest with
  | [_, word] =>
    match Namespace.ofToken? word with
    | some ns => .ok { version, ns }
    | none => .error (.malformed line.number (.unknownNamespace word))
  | _ => .error (.malformed line.number .badHeader)

/-- The mark in front of the access word of a transitive directive. -/
def transitivePrefix : String := "transitive-"

/-- The access word of a directive and whether it was marked transitive. -/
def splitTransitive (version : Nat) (word : String) : Except Malformation (String × Bool) :=
  match Text.stripStart? transitivePrefix word with
  | none => .ok (word, false)
  | some access =>
    if version < 2 then .error (.transitiveTooOld version) else .ok (access, true)

/-- The target that a kind and its operands name. -/
def parseTarget : TargetKind → List String → Except Malformation Target
  | .type, [owner] => .ok (.type owner)
  | .member kind, [owner, name, descriptor] => .ok (.member kind ⟨owner, ⟨name, descriptor⟩⟩)
  | kind, operands => .error (.operandCount kind operands.length)

/-- The directive that the words of a line spell. -/
def parseWords (version : Nat) (first : String) (rest : List String) :
    Except Malformation Directive := do
  let (accessWord, transitive) ← splitTransitive version first
  match Access.ofToken? accessWord, rest with
  | none, _ => .error (.unknownAccess first)
  | some _, [] => .error .missingKind
  | some access, kindWord :: operands =>
    match TargetKind.ofToken? kindWord with
    | none => .error (.unknownKind kindWord)
    | some kind =>
      if access.appliesTo kind then do
        let target ← parseTarget kind operands
        return { target, access, transitive }
      else .error (.inapplicable access kind)

/-- The directive of a line of a file in the given version. -/
def parseDirective (version : Nat) (line : SignificantLine) : Except DirectiveFault Directive :=
  match parseWords version line.first line.rest with
  | .ok directive => .ok directive
  | .error cause => .error (.malformed line.number cause)

/-- The directives of the lines below the header, up to the first malformed one. -/
def readBody (version : Nat) : List SignificantLine → EventStream
  | [] => {}
  | line :: rest =>
    match parseDirective version line with
    | .error fault => .failed fault
    | .ok directive => (readBody version rest).cons (.directive directive)

/-- Whether a header satisfies a reader that may insist on one namespace. -/
def checkExpected (expected : Option Namespace) (found : Namespace) : Except DirectiveFault Unit :=
  match expected with
  | none => .ok ()
  | some wanted => if wanted = found then .ok () else .error (.namespaceMismatch wanted found)

/-- The events of a list of significant lines. -/
def eventsOfLines (expected : Option Namespace) : List SignificantLine → EventStream
  | [] => .failed (.malformed 0 .missingHeader)
  | line :: rest =>
    match (do
      let header ← parseHeader line
      checkExpected expected header.ns
      return header) with
    | .error fault => .failed fault
    | .ok header => (readBody header.version rest).cons (.header header.ns)

/-- The events of a directive file. With `expected`, its header must declare that namespace. -/
def readEvents (content : Bytes) (expected : Option Namespace := none) : EventStream :=
  match decodeText content with
  | .error fault => .failed fault
  | .ok text => eventsOfLines expected (significantLines text)

/-- The line that should hold the header of a directive file. -/
def headerLine (content : Bytes) : Except DirectiveFault SignificantLine := do
  match significantLines (← decodeText content) with
  | [] => .error (.malformed 0 .missingHeader)
  | line :: _ => .ok line

/-- The header of a directive file. The lines below it are not looked at. -/
def readHeader (content : Bytes) : Except DirectiveFault Header := do
  parseHeader (← headerLine content)

/-- The version that a directive file declares. Neither its namespace nor its body is looked at. -/
def readVersion (content : Bytes) : Except DirectiveFault Nat := do
  parseVersion (← headerLine content)

/-- Whether an event is a transitive directive. -/
def Event.isTransitive : Event → Bool
  | header _ => false
  | directive d => d.transitive

/-- Whether a directive file exports anything. A version 1 file cannot, whatever its body holds;
    a version 2 file has to be well formed. -/
def containsTransitive (content : Bytes) : Except DirectiveFault Bool := do
  if (← readVersion content) < 2 then return false
  let stream := readEvents content
  match stream.fault with
  | some fault => .error fault
  | none => return stream.events.any Event.isTransitive

end AccessWidener
