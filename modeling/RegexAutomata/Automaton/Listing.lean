import RegexAutomata.Automaton.Basic

/-!
# Automata as lists of arrows

One line per arrow, in the order of the automaton. Nothing is escaped.
-/

namespace RegexAutomata

/-- An arrow as a triple. -/
def Arrow.text (arrow : Arrow) : String :=
  "(" ++ toString arrow.source ++ ", " ++ String.singleton arrow.symbol ++ ", "
    ++ toString arrow.target ++ ")"

namespace Automaton

/-- The triples of all arrows. -/
def arrowLines (a : Automaton) : List String :=
  a.arrows.map Arrow.text

/-- The triples with a line feed between each two. -/
def listing (a : Automaton) : String :=
  "\n".intercalate a.arrowLines

/-- The triples with a line feed after each. -/
def printed (a : Automaton) : String :=
  String.join (a.arrowLines.map (· ++ "\n"))

end Automaton

end RegexAutomata
