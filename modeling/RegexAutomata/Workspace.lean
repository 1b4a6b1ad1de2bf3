import RegexAutomata.Automaton.Observer
import RegexAutomata.Automaton.Listing
import RegexAutomata.Memory
import RegexAutomata.Regex.Compile

/-!
# A workspace of automata

Automata in memory, under names. A name belongs to an automaton by its number; giving the name to
another automaton leaves the first where it is, and an observer keeps watching the one it was
made on. Two names may belong to one automaton.

A step that is refused is no step back: whatever it did to the memory before the refusal stays
done.

Main definitions: `Workspace`, `Step`, `Workspace.act`, `Workspace.answers`.
-/

namespace RegexAutomata

/-- An observer at work: the arrows it noted, and the number of the automaton it watches. -/
structure Watch where
  noted : List Arrow
  object : Nat

/-- The memory, and the names of automata and of observers. Of two entries for a name the first
counts. -/
structure Workspace where
  memory : Memory
  slots : List (String × Nat)
  watches : List (String × Watch)

/-- What can be done in a workspace. Slots are names of automata. -/
inductive Step where
  /-- Makes an automaton for one symbol. -/
  | single (slot symbol : String)
  /-- Makes an automaton from its parts. -/
  | given (slot : String) (states : List Int) (rows : List Row) (accept : Int)
  /-- Makes an automaton without states. -/
  | empty (slot : String)
  /-- Makes an automaton of states alone, none for a negative size. -/
  | numbered (slot : String) (size : Int)
  /-- Makes the automaton of a regex. -/
  | build (slot : String) (regex : Option String)
  /-- Makes a choice of two automata. -/
  | alternate (slot left right : String)
  /-- Makes the repetition of an automaton. -/
  | star (slot inner : String)
  /-- Changes the left automaton by putting the right one behind it. -/
  | append (left right : String)
  /-- Changes the automaton by one more arrow. -/
  | add (slot : String) (row : Row)
  /-- Renumbers an arrow, apart from all automata. -/
  | shift (row : Row) (offset : Int)
  /-- Makes an observer of an automaton. -/
  | observe (name slot : String)
  /-- Asks an observer. -/
  | ask (name : String) (query : Query)

/-- What a step brings. -/
inductive Reply where
  /-- The automaton that was made or changed. -/
  | automaton (a : Automaton)
  /-- The automaton that was changed, and the one that was put behind it. -/
  | appended (left right : Automaton)
  /-- The renumbered arrow. -/
  | arrow (arrow : Arrow)
  /-- Nothing to show. -/
  | done
  /-- The answer of an observer. -/
  | answer (answer : Answer)
deriving DecidableEq

/-- Why a step is refused. -/
inductive Refusal where
  /-- The step itself went wrong. -/
  | fault (fault : Fault)
  /-- No automaton has that name. -/
  | unknownSlot (slot : String)
  /-- No observer has that name. -/
  | unknownObserver (name : String)
deriving DecidableEq

namespace Workspace

/-- Nothing made yet. -/
def empty : Workspace :=
  ⟨.empty, [], []⟩

/-- The number of the automaton in a slot. -/
def number? (w : Workspace) (slot : String) : Option Nat :=
  w.slots.lookup slot

/-- The observer of that name at work. -/
def watch? (w : Workspace) (name : String) : Option Watch :=
  w.watches.lookup name

/-- The observer, with the automaton as it is now. -/
def observer (w : Workspace) (watch : Watch) : Observer :=
  ⟨watch.noted, w.memory.read watch.object⟩

/-- What a step brings or why it is refused, and the workspace that it leaves. -/
abbrev Turn := Except Refusal Reply × Workspace

/-- Goes on with the number of the automaton in a slot, which has to be there. -/
def withSlot (w : Workspace) (slot : String) (go : Nat → Turn) : Turn :=
  match w.number? slot with
  | none => (.error (.unknownSlot slot), w)
  | some number => go number

/-- Puts an automaton that was made in memory into a slot, and shows it. -/
def stored (w : Workspace) (slot : String) (made : Except Fault Nat × Memory) : Turn :=
  let w := { w with memory := made.2 }
  match made.1 with
  | .error fault => (.error (.fault fault), w)
  | .ok number =>
    (.ok (.automaton (w.memory.read number)), { w with slots := (slot, number) :: w.slots })

/-- Replies to a change that was made in memory. -/
def changed (w : Workspace) (made : Except Fault Unit × Memory) (display : Memory → Reply) : Turn :=
  let w := { w with memory := made.2 }
  match made.1 with
  | .error fault => (.error (.fault fault), w)
  | .ok () => (.ok (display w.memory), w)

/-- Does a step. -/
def act (w : Workspace) : Step → Turn
  | .single slot symbol => w.stored slot (w.memory.single symbol)
  | .given slot states rows accept =>
    w.stored slot (w.memory.place (Automaton.ofRows? states rows accept))
  | .empty slot => w.stored slot (w.memory.place (.ok .empty))
  | .numbered slot size => w.stored slot (w.memory.place (.ok (.numbered size.toNat)))
  | .build slot regex => w.stored slot (w.memory.place (RegexAutomata.build regex))
  | .alternate slot left right =>
    w.withSlot left fun l => w.withSlot right fun r => w.stored slot (w.memory.alternate l r)
  | .star slot inner => w.withSlot inner fun number => w.stored slot (w.memory.star number)
  | .append left right =>
    w.withSlot left fun l => w.withSlot right fun r =>
      w.changed (w.memory.append l r) fun m => .appended (m.read l) (m.read r)
  | .add slot row =>
    w.withSlot slot fun number =>
      w.changed (w.memory.add number row) fun m => .automaton (m.read number)
  | .shift row offset =>
    match row.arrow? with
    | .error fault => (.error (.fault fault), w)
    | .ok arrow => (.ok (.arrow (arrow.shifted offset)), w)
  | .observe name slot =>
    w.withSlot slot fun number =>
      (.ok .done, { w with watches := (name, ⟨w.memory.arrows number, number⟩) :: w.watches })
  | .ask name query =>
    match w.watch? name with
    | none => (.error (.unknownObserver name), w)
    | some watch => (.ok (.answer ((w.observer watch).answer query)), w)

/-- The workspace after a step, also after one that is refused. -/
def next (w : Workspace) (step : Step) : Workspace :=
  (w.act step).2

/-- What a step brings, or why it is refused. -/
def reply (w : Workspace) (step : Step) : Except Refusal Reply :=
  (w.act step).1

/-- What the steps bring, one after the other. -/
def answers (w : Workspace) : List Step → List (Except Refusal Reply)
  | [] => []
  | step :: rest => w.reply step :: (w.next step).answers rest

/-- The workspace after the steps. -/
def run (w : Workspace) (steps : List Step) : Workspace :=
  steps.foldl next w

end Workspace

end RegexAutomata
