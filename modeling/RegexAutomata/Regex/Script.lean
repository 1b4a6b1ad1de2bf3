import RegexAutomata.Regex.Compile

/-!
# Driving the machine

The machine step by step, from any state and through any tokens and marks. The first fault
ends the drive.
-/

namespace RegexAutomata

/-- A step of the machine, with the position to report. -/
inductive Action where
  /-- Takes a token in. -/
  | shift (text : String) (position : Int)
  /-- Takes the top mark off. -/
  | reduce (position : Int)
  /-- Takes the top operand off. -/
  | pop (position : Int)

namespace Machine

/-- A machine in a given state: marks from the bottom, and regexes for the operands from the
bottom. -/
def loaded (regex : String) (marks operands : List String) (afterOperand : Bool)
    (openGroups : Int) : Except Fault Machine :=
  (operands.mapM fun operand => build (some operand)).map fun automata =>
    { regex
      marks := (marks.map Mark.ofText).reverse
      operands := automata.reverse
      afterOperand
      openGroups }

/-- Does one step. -/
def perform (m : Machine) : Action → Except Fault Machine
  | .shift text position => (m.shift (.ofText text) position).result
  | .reduce position => m.reduce position
  | .pop position => (m.takeTop position).map (·.2)

/-- The states after each step, up to the end or the first fault. -/
def drive (m : Machine) : List Action → List Machine × Except Fault Machine
  | [] => ([], .ok m)
  | action :: rest =>
    match m.perform action with
    | .error fault => ([], .error fault)
    | .ok next =>
      let (visited, last) := next.drive rest
      (next :: visited, last)

end Machine

end RegexAutomata
