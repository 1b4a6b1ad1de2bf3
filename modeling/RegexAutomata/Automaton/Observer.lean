import RegexAutomata.Automaton.Basic
import RegexAutomata.Automaton.Explore

/-!
# Running an automaton

An observer answers questions about an automaton. It notes the arrows when it is made, and
follows the noted arrows whenever it reads; whether there are states, where the automaton
accepts and what can be reached at all it looks up in the automaton as it then is.

Reading is done with sets of states: from the closure of the start along arrows that read
nothing, each character leads to the closure of the states that arrows with that symbol lead
to. Sets are lists whose order means nothing; `Observer.answer` puts them in order.
-/

namespace RegexAutomata

/-- The arrows noted at first and the automaton as it is now. -/
structure Observer where
  noted : List Arrow
  live : Automaton

/-- An observer made now. -/
def Automaton.observer (a : Automaton) : Observer :=
  ⟨a.arrows, a⟩

namespace Observer

/-- The noted arrows that read nothing, as edges. -/
def silentEdges (o : Observer) : List (Int × Int) :=
  (o.noted.filter (·.symbol = epsilon)).map fun arrow => (arrow.source, arrow.target)

/-- The states that can be reached from the given ones without reading. -/
def closure (o : Observer) (states : List Int) : List Int :=
  reach .depth o.silentEdges states

/-- The targets of the noted arrows from one state that read the character. -/
def targets (o : Observer) (c : Char) (state : Int) : List Int :=
  (o.noted.filter fun arrow => arrow.source = state ∧ arrow.symbol = c).map (·.target)

/-- The states that reading the character leads to. The sign of the empty word is never
read. -/
def advance (o : Observer) (states : List Int) (c : Char) : List Int :=
  if c = epsilon then [] else states.flatMap (o.targets c)

/-- Whether reading the word leads from one of the states, a closed set, to the accepting
state. Without any state left the rest of the word is not looked at. -/
def readsFrom (o : Observer) (states : List Int) : List Char → Bool
  | [] => o.live.accept ∈ states
  | c :: rest =>
    let next := o.closure (o.advance states c)
    if next.isEmpty then false else o.readsFrom next rest

/-- Whether the automaton accepts the text. One without states accepts nothing. -/
def accepts (o : Observer) (text : String) : Bool :=
  !o.live.isEmpty && o.readsFrom (o.closure [startState]) text.toList

/-- The states that the arrows of the live automaton lead to from the start, whatever their
symbols. One without states has none. -/
def reachable (o : Observer) : List Int :=
  if o.live.isEmpty then []
  else reach .breadth (o.live.arrows.map fun arrow => (arrow.source, arrow.target)) [startState]

end Observer

/-- A question for an observer. -/
inductive Query where
  /-- Which states can be reached from these without reading? -/
  | closure (states : List Int)
  /-- Which states does reading the symbol lead to? -/
  | advance (states : List Int) (symbol : String)
  /-- Is the text accepted? -/
  | accepts (text : String)
  /-- Which states can be reached at all? -/
  | reachable

/-- What an observer answers: a set of states in ascending order, or a verdict. -/
inductive Answer where
  | states (members : List Int)
  | verdict (accepted : Bool)
deriving DecidableEq

/-- The answer to a question. A symbol that is not a single character leads nowhere. -/
def Observer.answer (o : Observer) : Query → Answer
  | .closure states => .states (ascending (o.closure states))
  | .advance states symbol =>
    match symbol.toList with
    | [c] => .states (ascending (o.advance states c))
    | _ => .states []
  | .accepts text => .verdict (o.accepts text)
  | .reachable => .states (ascending o.reachable)

end RegexAutomata
