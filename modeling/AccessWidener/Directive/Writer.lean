import AccessWidener.Directive.Reader

/-!
# Writing Directive Files

A writer takes a header and then directives, and keeps the text written so far. Words are separated
by tabs and every line ends with a line feed. What the format version cannot express is refused,
and a refused event adds nothing to the text.

## Main definitions

* `Writer`: A format version and the text so far.
* `Writer.ofVersion`: A writer that has written nothing.
* `Writer.visit`: The text after one more event.
-/

namespace AccessWidener

/-- A directive file being written. -/
structure Writer where
  version : Nat
  started : Bool := false
  text : String := ""
deriving DecidableEq, Repr

namespace Writer

/-- A writer that has written nothing yet. -/
def ofVersion (version : Nat) : Except DirectiveFault Writer :=
  if supportedVersion version then .ok { version }
  else .error (.unwritable (.unsupportedVersion version))

/-- The words of a line, tab separated and terminated. -/
def lineOfWords (words : List String) : String :=
  "\t".intercalate words ++ "\n"

/-- The line of a header. -/
def headerLine (version : Nat) (ns : Namespace) : String :=
  lineOfWords [headerMagic, s!"v{version}", ns.token]

/-- The first word of a directive line. -/
def accessWord (directive : Directive) : String :=
  (if directive.transitive then transitivePrefix else "") ++ directive.access.token

/-- The line of a directive. -/
def directiveLine (directive : Directive) : String :=
  lineOfWords (accessWord directive :: directive.target.words)

/-- Writes an event, or refuses it: one header comes first, and version 1 has no transitive
    directives. -/
def visit : Sink Writer
  | writer, .header ns =>
    if writer.started then .error (.unwritable .headerAlreadyWritten)
    else .ok { writer with started := true, text := writer.text ++ headerLine writer.version ns }
  | writer, .directive d =>
    if !writer.started then .error (.unwritable .directiveBeforeHeader)
    else if d.transitive && writer.version < 2 then
      .error (.unwritable (.transitiveTooOld d.target))
    else .ok { writer with text := writer.text ++ directiveLine d }

end Writer

end AccessWidener
