import RegexAutomata.Symbol
import RegexAutomata.Fault

/-!
# Automata

A nondeterministic automaton with arrows for single symbols and for the empty word. States are
integers; the start state is always `0`, and there is one accepting state. Nothing is assumed
about the numbers: states may repeat, and arrows may lead outside the listed states.

Main definitions: `Arrow`, `Automaton`. `Row` and `Automaton.ofRows?` read arrows whose symbol
is given as a text.
-/

namespace RegexAutomata

/-- An arrow from state to state, labelled with one symbol; the symbol `epsilon` makes it an
arrow that reads nothing. -/
structure Arrow where
  source : Int
  symbol : Char
  target : Int
deriving DecidableEq

/-- The same arrow between states numbered from `offset` on. -/
def Arrow.shifted (arrow : Arrow) (offset : Int) : Arrow :=
  ⟨arrow.source + offset, arrow.symbol, arrow.target + offset⟩

/-- An automaton. Its start state is `startState`, whether or not it is listed. -/
structure Automaton where
  states : List Int
  arrows : List Arrow
  accept : Int
deriving DecidableEq

/-- The start state of every automaton. -/
def startState : Int := 0

@[simp] theorem startState_add (n : Int) : startState + n = n := Int.zero_add n

namespace Automaton

/-- The automaton without states. It stands for the result of a rejected regex. -/
def empty : Automaton := ⟨[], [], 0⟩

/-- The states `0` to `size - 1` and no arrows. -/
def numbered (size : Nat) : Automaton :=
  ⟨(List.range size).map Int.ofNat, [], 0⟩

/-- Whether there are no states; arrows do not count. -/
def isEmpty (a : Automaton) : Bool :=
  a.states.isEmpty

theorem isEmpty_eq_false {a : Automaton} (h : a.states ≠ []) : a.isEmpty = false :=
  List.isEmpty_eq_false_iff.mpr h

/-- The number of listed states. -/
def size (a : Automaton) : Nat :=
  a.states.length

/-- The automaton with one more arrow, after the others. -/
def addArrow (a : Automaton) (arrow : Arrow) : Automaton :=
  { a with arrows := a.arrows ++ [arrow] }

/-- The automaton in one line: how large it is, where it starts and where it accepts. -/
def summary (a : Automaton) : String :=
  if a.isEmpty then "NFA(empty)"
  else
    "NFA(States:" ++ toString a.size ++ ", Transitions:" ++ toString a.arrows.length ++
      ", Start:" ++ toString startState ++ ", Accept:" ++ toString a.accept ++ ")"

end Automaton

/-- An arrow as it is given from outside, with a text for its symbol. -/
structure Row where
  source : Int
  symbol : String
  target : Int

/-- The only character of a text. -/
def onlyChar? (text : String) : Except Fault Char :=
  match text.toList with
  | [c] => .ok c
  | _ => .error .symbolLength

/-- The arrow that a row describes; its text has to be a single character. -/
def Row.arrow? (row : Row) : Except Fault Arrow :=
  (onlyChar? row.symbol).map fun c => ⟨row.source, c, row.target⟩

/-- The automaton with the given states, rows for its arrows and accepting state, taken as
they are. -/
def Automaton.ofRows? (states : List Int) (rows : List Row) (accept : Int) :
    Except Fault Automaton :=
  (rows.mapM Row.arrow?).map fun arrows => ⟨states, arrows, accept⟩

end RegexAutomata
