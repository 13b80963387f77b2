/-!
# Scanners

A scanner takes something off the front of a text, or fails and leaves the choice to an
alternative.

## Main definitions

* `Scanner`: A step over a text.
* `Scanner.char`, `Scanner.word`, `Scanner.run`: A character, a known text, and a run of characters.
* `Scanner.many`, `Scanner.untilDone`: Repetitions.
-/

namespace AccessWidener

/-- A step that takes something off the front of a text, or fails. -/
abbrev Scanner := StateT (List Char) Option

namespace Scanner

/-- The next character, if it satisfies `p`. -/
def char (p : Char → Bool) : Scanner Char := fun text =>
  match text with
  | c :: rest => if p c then some (c, rest) else none
  | [] => none

/-- A known string of characters. -/
def word (expected : String) : Scanner Unit := fun text =>
  (expected.toList.isPrefixOf? text).map fun rest => ((), rest)

/-- The longest run of characters that satisfy `p`. -/
def run (p : Char → Bool) : Scanner (List Char) := fun text =>
  some (text.takeWhile p, text.dropWhile p)

/-- Succeeds at the end of the text. -/
def done : Scanner Unit := fun text =>
  if text.isEmpty then some ((), text) else none

/-- Succeeds if a condition holds. -/
def check (condition : Bool) : Scanner Unit :=
  if condition then pure () else failure

/-- At most `n` repetitions of a step, as many as succeed. -/
def upTo {α : Type} (step : Scanner α) : Nat → Scanner (List α)
  | 0 => pure []
  | n + 1 =>
    (do
      let first ← step
      let others ← upTo step n
      return first :: others) <|> pure []

/-- As many repetitions of a step as succeed, each taking at least one character. -/
def many {α : Type} (step : Scanner α) : Scanner (List α) := do
  upTo step (← get).length

/-- Repetitions of a step until the text ends, each taking at least one character. -/
def untilDone {α : Type} (step : Scanner α) : Scanner (List α) := do
  let results ← many step
  done
  return results

end Scanner

end AccessWidener
