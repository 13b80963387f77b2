import AccessWidener.Pipeline.Fault

/-!
# Failures

A failure tells what was tried and why it did not work out. The causes are listed from the outermost
to the innermost, numbered if there are several, and the lines of a cause are indented alike.

## Main definitions

* `Failure`: What was tried, and the causes of its failure.
* `Failure.render`: The text of a failure.
* `attempt`: The result of a step, with what was tried if it fails.
-/

namespace AccessWidener

/-- What was tried, and the causes of its failure, outermost first. -/
structure Failure where
  summary : String
  causes : List String := []
deriving DecidableEq, Repr

namespace Failure

/-- The failure of a step for the reasons in a chain. -/
def during (step : String) (chain : List String) : Failure where
  summary := step
  causes := chain

/-- The failure that a fault is when nothing more is known about it. -/
def ofFault (fault : Fault) : Failure where
  summary := fault.message
  causes := fault.chain.drop 1

/-- A cause with the lines after its first one indented like it. -/
def indented (start continuation cause : String) : String :=
  start ++ continuation.intercalate ((cause.toList.splitOn '\n').map String.ofList)

/-- The number of a cause, right-aligned. -/
def numbered (number : Nat) : String :=
  let digits := toString number
  String.ofList (List.replicate (5 - digits.length) ' ') ++ digits ++ ": "

/-- The lines of several causes, numbered. -/
def numberedCauses (number : Nat) : List String → List String
  | [] => []
  | cause :: rest =>
    indented (numbered number) "\n       " cause :: numberedCauses (number + 1) rest

/-- The lines of the causes. A single one has no number. -/
def causeLines : List String → List String
  | [cause] => [indented "    " "\n    " cause]
  | causes => numberedCauses 0 causes

/-- The text of a failure. -/
def render (failure : Failure) : String :=
  let causes := causeLines failure.causes
  let explanation := if causes = [] then "" else "\n\nCaused by:\n" ++ "\n".intercalate causes
  "Error: " ++ failure.summary ++ explanation ++ "\n"

end Failure

/-- The result of a step, with what was tried if it fails. -/
def attempt {α : Type} (step : String) (result : Except Fault α) : Except Failure α :=
  match result with
  | .ok value => .ok value
  | .error fault => .error (.during step fault.chain)

end AccessWidener
