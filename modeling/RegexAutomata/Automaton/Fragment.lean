import RegexAutomata.Automaton.Basic

/-!
# Constructing automata

The four constructions that make an automaton out of a regex: a single symbol, one automaton
after another, a choice of two, and repetition. Made from nothing else, an automaton has the
states `0` to `n - 1`, in order, and accepts in the last; `append` relies on it by taking the
last listed state of its left side for the place where the right side begins, while
`alternate` and `star` only count states.

`append` adds no arrow for the empty word: it lets the start of the right side fall together
with the last state of the left.
-/

namespace RegexAutomata.Automaton

/-- Reads one symbol. -/
def single (c : Char) : Automaton :=
  ⟨[0, 1], [⟨0, c, 1⟩], 1⟩

/-- The right automaton behind the left, renumbered so that its start is the state `offset`;
its first listed state is left out. -/
def glue (offset : Int) (left right : Automaton) : Automaton where
  states := left.states ++ right.states.tail.map (· + offset)
  arrows := left.arrows ++ right.arrows.map (·.shifted offset)
  accept := right.accept + offset

/-- Reads what the left automaton reads and then what the right one does. -/
def append (left right : Automaton) : Automaton :=
  glue (left.states.getLastD startState) left right

/-- The same, unless the left automaton has no states: then there is no place for the right one
to begin. -/
def append? (left right : Automaton) : Except Fault Automaton :=
  if left.isEmpty then .error .emptySequence else .ok (left.append right)

theorem append?_eq_ok_iff {l r joined : Automaton} :
    l.append? r = .ok joined ↔ l.states ≠ [] ∧ l.append r = joined := by
  unfold append? isEmpty
  cases l.states with
  | nil => simp
  | cons first others => simp

theorem append?_eq_ok {l : Automaton} (h : l.states ≠ []) (r : Automaton) :
    l.append? r = .ok (l.append r) :=
  append?_eq_ok_iff.mpr ⟨h, rfl⟩

/-- The automata one behind the other, from left to right. -/
def appendAll? : List Automaton → Except Fault Automaton
  | [] => .error .emptySequence
  | first :: others => others.foldlM append? first

/-- Reads what either automaton reads: a new start leads to both, and both lead to a new
accepting state. -/
def alternate (left right : Automaton) : Automaton :=
  let leftStart : Int := 1
  let rightStart : Int := left.size + 1
  let accept : Int := left.size + right.size + 1
  { states := (numbered (left.size + right.size + 2)).states
    arrows :=
      [⟨0, epsilon, leftStart⟩] ++ left.arrows.map (·.shifted leftStart)
        ++ [⟨left.accept + leftStart, epsilon, accept⟩]
        ++ [⟨0, epsilon, rightStart⟩] ++ right.arrows.map (·.shifted rightStart)
        ++ [⟨right.accept + rightStart, epsilon, accept⟩]
    accept }

/-- Reads any number of times, also none, what the automaton reads: between a new start and a
new accepting state, with a way back and a way past. -/
def star (a : Automaton) : Automaton :=
  let accept : Int := a.size + 1
  { states := (numbered (a.size + 2)).states
    arrows :=
      [⟨0, epsilon, 1⟩] ++ a.arrows.map (·.shifted 1)
        ++ [⟨a.accept + 1, epsilon, accept⟩, ⟨a.accept + 1, epsilon, 1⟩, ⟨0, epsilon, accept⟩]
    accept }

end RegexAutomata.Automaton
