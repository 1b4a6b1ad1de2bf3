import RegexAutomata.Automaton.Basic
import RegexAutomata.Regex.Token

/-!
# The journal of a compilation

A compilation says what it does: each token before it is taken in, each mark when it is taken
off, the automaton at the end, and the reason when a text is turned away. These records are
kept with the result, also when the result is a fault.

Main definitions: `Record`, `Logged`.
-/

namespace RegexAutomata

/-- How much a record matters. -/
inductive Level where
  | debug
  | warning
deriving DecidableEq

/-- The name of a level. -/
def Level.name : Level → String
  | debug => "DEBUG"
  | warning => "WARNING"

/-- What can be recorded. -/
inductive Record where
  /-- A token is about to be taken in: the marks, bottom first, and the number of operands
  before it. -/
  | shift (token : Token) (marks : List Mark) (operands : Nat)
  /-- A mark was taken off: the number of operands before any of them is taken off, too. -/
  | reduce (mark : Mark) (operands : Nat)
  /-- The regex has been made into the automaton. -/
  | compiled (regex : String) (automaton : Automaton)
  /-- The text was turned away. -/
  | rejected (report : Report)
deriving DecidableEq

namespace Record

/-- Only a text that is turned away is worth a warning. -/
def level : Record → Level
  | rejected _ => .warning
  | _ => .debug

/-- Marks as they are shown in a record. -/
def marksText (marks : List Mark) : String :=
  "[" ++ ", ".intercalate (marks.map fun mark => Text.quoted mark.text) ++ "]"

/-- The wording of a record. -/
def wording : Record → String
  | shift token marks operands =>
    "shift " ++ Text.quoted token.text ++ " ops=" ++ marksText marks
      ++ " operands=" ++ toString operands
  | reduce mark operands =>
    "reduce " ++ Text.quoted mark.text ++ " operands=" ++ toString operands
  | compiled regex automaton =>
    "compiled " ++ Text.quoted regex ++ ": " ++ automaton.summary
  | rejected report => "Invalid Regular Expression Input: " ++ report.message

/-- A record in one line, behind its level. -/
def text (record : Record) : String :=
  record.level.name ++ ": " ++ record.wording

end Record

/-- The records that are warnings. -/
def warnings (records : List Record) : List Record :=
  records.filter fun record => record.level = .warning

/-- A result, or a fault, with the records of how it came about. -/
structure Logged (α : Type) where
  records : List Record
  result : Except Fault α

namespace Logged

variable {α β : Type}

/-- A value, with nothing to record. -/
def value (a : α) : Logged α :=
  ⟨[], .ok a⟩

/-- A fault, with nothing to record. -/
def fail (fault : Fault) : Logged α :=
  ⟨[], .error fault⟩

/-- The same, with a record in front. -/
def after (record : Record) (x : Logged α) : Logged α :=
  ⟨record :: x.records, x.result⟩

/-- Goes on with the value, if there is one; the records follow each other. -/
def andThen (x : Logged α) (next : α → Logged β) : Logged β :=
  match x.result with
  | .error fault => ⟨x.records, .error fault⟩
  | .ok a => ⟨x.records ++ (next a).records, (next a).result⟩

@[simp] theorem result_after (record : Record) (x : Logged α) :
    (after record x).result = x.result := rfl

/-- The result of a sequence does not depend on the records. -/
theorem result_andThen (x : Logged α) (next : α → Logged β) :
    (x.andThen next).result = x.result.bind fun a => (next a).result := by
  unfold andThen
  cases x.result <;> rfl

end Logged

end RegexAutomata
