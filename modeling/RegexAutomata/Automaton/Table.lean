import RegexAutomata.Automaton.Basic

/-!
# Automata as tables

A table of the arrows between pipes: a head, a rule of dashes, and a row for each arrow. Below
it stand the start and the accepting state, unless the automaton is empty.

The arrows are meant to carry the symbols of a regex: letters and the sign of the empty word. Of
other symbols nothing is said. Digits, say, would make their column one of numbers, which stand on
the right, and a line feed would be two lines of a cell.
-/

namespace RegexAutomata

/-- The side of a column on which its texts stand. -/
inductive Side where
  | left
  | right
deriving DecidableEq

/-- A column of a table. -/
structure Column where
  title : String
  side : Side
  cells : List String

namespace Column

/-- Wide enough for every cell, and for the title with two blanks more. -/
def width (column : Column) : Nat :=
  column.cells.foldr (fun cell wide => max cell.length wide) (column.title.length + 2)

/-- The text with blanks up to the width of the column. -/
def align (column : Column) (text : String) : String :=
  let blanks := String.ofList (List.replicate (column.width - text.length) ' ')
  match column.side with
  | .left => text ++ blanks
  | .right => blanks ++ text

/-- The title, aligned like the cells. -/
def heading (column : Column) : String :=
  column.align column.title

/-- The part of the rule under the heading, one dash on either side wider than the column. -/
def rule (column : Column) : String :=
  String.ofList (List.replicate (column.width + 2) '-')

end Column

/-- Three texts between pipes. -/
def pipeRow (first second third : String) : String :=
  "| " ++ first ++ " | " ++ second ++ " | " ++ third ++ " |"

namespace Automaton

/-- Numbers stand on the right; a column without cells is not one of numbers. -/
def numberSide (a : Automaton) : Side :=
  if a.arrows.isEmpty then .left else .right

/-- The sources of the arrows. -/
def sourceColumn (a : Automaton) : Column :=
  ⟨"from", a.numberSide, a.arrows.map fun arrow => toString arrow.source⟩

/-- The symbols of the arrows: letters, which stand on the left. -/
def symbolColumn (a : Automaton) : Column :=
  ⟨"symbol", .left, a.arrows.map fun arrow => String.singleton arrow.symbol⟩

/-- The targets of the arrows. -/
def targetColumn (a : Automaton) : Column :=
  ⟨"to", a.numberSide, a.arrows.map fun arrow => toString arrow.target⟩

/-- The head and the rule of the table. -/
def tableHead (a : Automaton) : List String :=
  [pipeRow a.sourceColumn.heading a.symbolColumn.heading a.targetColumn.heading,
   "|" ++ a.sourceColumn.rule ++ "|" ++ a.symbolColumn.rule ++ "|" ++ a.targetColumn.rule ++ "|"]

/-- The row of an arrow. -/
def tableRow (a : Automaton) (arrow : Arrow) : String :=
  pipeRow (a.sourceColumn.align (toString arrow.source))
    (a.symbolColumn.align (String.singleton arrow.symbol))
    (a.targetColumn.align (toString arrow.target))

/-- The table of the arrows alone. -/
def arrowTable (a : Automaton) : String :=
  "\n".intercalate (a.tableHead ++ a.arrows.map a.tableRow)

/-- The table with the start and the accepting state below it. -/
def table (a : Automaton) : String :=
  if a.isEmpty then a.arrowTable
  else
    a.arrowTable ++ "\n起始状态: " ++ toString startState ++ "  接受状态: " ++ toString a.accept

end Automaton

end RegexAutomata
