import RegexAutomata.Automaton.Fragment

/-!
# Automata in memory

Automata that are changed in place. In memory an automaton is a cell with a number: its states and
its arrows stand in two lists that the cell only points to, and its accepting state is a field of
the cell. A list can be made longer, and whoever else pointed to it would see that, too.

The constructions are done here as a sequence of changes, in the order in which they are made. Work
that is refused leaves behind what was done before the refusal: `single` has already made a cell
when its symbol turns out to be none.

Main definitions: `Memory`, `Memory.read`, and `Memory.single`, `Memory.append`,
`Memory.alternate`, `Memory.star`.
-/

namespace RegexAutomata

/-- An automaton in memory: the numbers of its two lists, and its accepting state. -/
structure Cell where
  states : Nat
  arrows : Nat
  accept : Int

/-- The lists and the cells made so far, by number. -/
structure Memory where
  stateLists : List (List Int)
  arrowLists : List (List Arrow)
  cells : List Cell

namespace Memory

/-- Nothing made yet. -/
def empty : Memory :=
  ⟨[], [], []⟩

/-- The number of automata, which is also the number that the next one gets. -/
def size (m : Memory) : Nat :=
  m.cells.length

/-! ## Looking -/

/-- The list that is pointed to, if there is one. -/
def listAt {α : Type} (lists : List (List α)) (pointer : Option Nat) : List α :=
  (pointer.bind (lists[·]?)).getD []

/-- The states of an automaton as they are now. -/
def states (m : Memory) (number : Nat) : List Int :=
  listAt m.stateLists ((m.cells[number]?).map (·.states))

/-- The arrows of an automaton as they are now. -/
def arrows (m : Memory) (number : Nat) : List Arrow :=
  listAt m.arrowLists ((m.cells[number]?).map (·.arrows))

/-- The accepting state of an automaton as it is now. -/
def accept (m : Memory) (number : Nat) : Int :=
  ((m.cells[number]?).map (·.accept)).getD 0

/-- An automaton as it is now; the empty one for a number that none has. -/
def read (m : Memory) (number : Nat) : Automaton :=
  ⟨m.states number, m.arrows number, m.accept number⟩

/-! ## Changing -/

/-- Makes a cell and two lists for an automaton. -/
def create (m : Memory) (a : Automaton) : Memory where
  stateLists := m.stateLists ++ [a.states]
  arrowLists := m.arrowLists ++ [a.arrows]
  cells := m.cells ++ [⟨m.stateLists.length, m.arrowLists.length, a.accept⟩]

/-- Puts states at the end of the list that the automaton points to. -/
def extendStates (m : Memory) (number : Nat) (more : List Int) : Memory :=
  match m.cells[number]? with
  | none => m
  | some cell => { m with stateLists := m.stateLists.modify cell.states (· ++ more) }

/-- Puts arrows at the end of the list that the automaton points to. -/
def extendArrows (m : Memory) (number : Nat) (more : List Arrow) : Memory :=
  match m.cells[number]? with
  | none => m
  | some cell => { m with arrowLists := m.arrowLists.modify cell.arrows (· ++ more) }

/-- Sets the accepting state. -/
def setAccept (m : Memory) (number : Nat) (accept : Int) : Memory :=
  { m with cells := m.cells.modify number fun cell => { cell with accept } }

/-! ## Constructing -/

/-- An automaton that is there as a whole, if there is one. -/
def place (m : Memory) (a : Except Fault Automaton) : Except Fault Nat × Memory :=
  match a with
  | .error fault => (.error fault, m)
  | .ok a => (.ok m.size, m.create a)

/-- An automaton that reads one symbol. The cell is made before the symbol is looked at. -/
def single (m : Memory) (symbol : String) : Except Fault Nat × Memory :=
  let number := m.size
  let m := m.create (.numbered 2)
  match onlyChar? symbol with
  | .error fault => (.error fault, m)
  | .ok c =>
    let m := m.extendArrows number [⟨0, c, 1⟩]
    (.ok number, m.setAccept number 1)

/-- One more arrow for an automaton. -/
def add (m : Memory) (number : Nat) (row : Row) : Except Fault Unit × Memory :=
  match row.arrow? with
  | .error fault => (.error fault, m)
  | .ok arrow => (.ok (), m.extendArrows number [arrow])

/-- Puts one automaton behind another, which is changed; without states it has no place for what
should come behind it. -/
def append (m : Memory) (left right : Nat) : Except Fault Unit × Memory :=
  match (m.states left).getLast? with
  | none => (.error .emptySequence, m)
  | some offset =>
    let m := m.extendStates left ((m.states right).tail.map (· + offset))
    let m := m.extendArrows left ((m.arrows right).map (·.shifted offset))
    (.ok (), m.setAccept left (m.accept right + offset))

/-- A choice of two automata, in a cell of its own. -/
def alternate (m : Memory) (left right : Nat) : Except Fault Nat × Memory :=
  let leftStart : Int := 1
  let rightStart : Int := (m.states left).length + 1
  let number := m.size
  let m := m.create (.numbered ((m.states left).length + (m.states right).length + 2))
  let accept := (m.states number).getLastD startState
  let m := m.extendArrows number [⟨0, epsilon, leftStart⟩]
  let m := m.extendArrows number ((m.arrows left).map (·.shifted leftStart))
  let m := m.extendArrows number [⟨m.accept left + leftStart, epsilon, accept⟩]
  let m := m.extendArrows number [⟨0, epsilon, rightStart⟩]
  let m := m.extendArrows number ((m.arrows right).map (·.shifted rightStart))
  let m := m.extendArrows number [⟨m.accept right + rightStart, epsilon, accept⟩]
  (.ok number, m.setAccept number accept)

/-- The repetition of an automaton, in a cell of its own. -/
def star (m : Memory) (inner : Nat) : Except Fault Nat × Memory :=
  let number := m.size
  let m := m.create (.numbered ((m.states inner).length + 2))
  let accept := (m.states number).getLastD startState
  let innerStart := startState + 1
  let innerAccept := m.accept inner + 1
  let m := m.extendArrows number [⟨0, epsilon, innerStart⟩]
  let m := m.extendArrows number ((m.arrows inner).map (·.shifted 1))
  let m := m.extendArrows number [⟨innerAccept, epsilon, accept⟩]
  let m := m.extendArrows number [⟨innerAccept, epsilon, innerStart⟩]
  let m := m.extendArrows number [⟨0, epsilon, accept⟩]
  (.ok number, m.setAccept number accept)

end Memory

end RegexAutomata
