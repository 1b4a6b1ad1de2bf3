import RegexAutomata.Text.Quoted

/-!
# Faults

Why a text is not a regex, and what else can go wrong with automata. A fault in a regex has a
cause, which fixes its kind and its wording, and the place where it was noticed. Only stray
characters are recoverable: see `Fault.soft?`.

Main definitions: `Cause`, `Report`, `Fault`.
-/

namespace RegexAutomata

/-- The kinds of fault a regex can have. -/
inductive Kind where
  /-- A fault with no closer description. -/
  | general
  /-- The regex is empty or holds a character that is no symbol. -/
  | invalidCharacter
  /-- A parenthesis is closed that was never opened. -/
  | unbalancedParenthesis
  /-- An operator lacks an operand. -/
  | operandMismatch
deriving DecidableEq

/-- The causes of a fault in a regex. -/
inductive Cause where
  /-- There is nothing to be read. -/
  | emptyRegex
  /-- The text, usually a character, is no symbol. -/
  | strayText (text : String)
  /-- A group is closed where none is open. -/
  | nothingOpen
  /-- A group is closed where an operand is due. -/
  | emptyGroup
  /-- A star stands where an operand is due. -/
  | nothingToRepeat
  /-- A bar stands where an operand is due. -/
  | missingLeft
  /-- The regex ends where an operand is due. -/
  | missingRight
  /-- An operator is applied, but the operands have run out. -/
  | noOperand
  /-- The regex is read, and marks are left without operands. -/
  | marksLeft
  /-- The regex is read, and operands are left without marks. -/
  | operandsLeft (regex : String)
deriving DecidableEq

namespace Cause

/-- The kind of fault that the cause makes. -/
def kind : Cause → Kind
  | emptyRegex => .invalidCharacter
  | strayText _ => .invalidCharacter
  | nothingOpen => .unbalancedParenthesis
  | _ => .operandMismatch

/-- The wording of the cause. -/
def reason : Cause → String
  | emptyRegex => "Regex cannot be null or empty"
  | strayText text => "Invalid character " ++ Text.quoted text
  | nothingOpen => "More end parenthesis than beginning parenthesis"
  | emptyGroup => "Empty group or dangling operator before ')'"
  | nothingToRepeat => "Nothing to repeat before '*'"
  | missingLeft => "Missing left operand for '|'"
  | missingRight => "Missing operand at end of regex"
  | noOperand => "Operator has no operand"
  | marksLeft => "Operators and operands do not match"
  | operandsLeft regex => "Invalid regex expression: " ++ regex

end Cause

/-- What is reported about a fault in a regex. A fault that shows only at the end has the
length of the regex for its position. -/
structure Report where
  kind : Kind
  reason : String
  regex : String
  position : Int
deriving DecidableEq

/-- The report in one line. -/
def Report.message (report : Report) : String :=
  report.reason ++ " @ " ++ toString report.position ++ ": " ++ Text.quoted report.regex

/-- Everything that can go wrong. -/
inductive Fault where
  /-- The regex has a fault. -/
  | regex (cause : Cause) (source : String) (position : Int)
  /-- An arrow was given a text that is not a single character. -/
  | symbolLength
  /-- A mark was to be reduced that is no operator. -/
  | unsupportedOperator (text : String)
  /-- The end of something empty was asked for. -/
  | emptySequence
deriving DecidableEq

namespace Fault

/-- The report on a fault in a regex. -/
def report? : Fault → Option Report
  | .regex cause source position => some ⟨cause.kind, cause.reason, source, position⟩
  | _ => none

/-- The wording of a fault. -/
def message : Fault → String
  | .regex cause source position =>
    (Report.mk cause.kind cause.reason source position).message
  | .symbolLength => "symbol must be a single character"
  | .unsupportedOperator text => "Unsupported operator: " ++ text
  | .emptySequence => "the sequence is empty"

/-- The report on a fault that a compilation survives: the regex is empty or holds a stray
character. -/
def soft? (fault : Fault) : Option Report :=
  fault.report?.filter (·.kind = .invalidCharacter)

end Fault

end RegexAutomata
