/-!
# Exploring a graph

The states that can be reached along the edges of a finite graph, by a search. A state that is
found waits until it is looked at; then the edges out of it are followed one after the other, and a
target that nobody has found yet is marked and waits in its turn. Which of the waiting states comes
next is left open: `Search.Order`.

A search ends on every graph, also on one with cycles. A state waits once, and what it costs to
look at it is paid for by the edge that it was found by, since no edge to it counts any longer:
`Search.load` shrinks with each round (`Search.load_round_lt`).

Main definitions: `Search.round`, `Search.run`, `reach`, and `ascending` for listing a finite set
in order.
-/

namespace RegexAutomata

/-- Which of the waiting states a search looks at next. -/
inductive Search.Order where
  /-- The one found last. -/
  | depth
  /-- The one found first. -/
  | breadth

/-- A search under way: the states that wait, the next one in front, and all states found so
far. -/
structure Search where
  waiting : List Int
  found : List Int

/-- Puts a new state among the waiting ones: on top of a stack, or at the end of a queue. -/
def Search.Order.insert (order : Search.Order) (state : Int) (waiting : List Int) : List Int :=
  match order with
  | .depth => state :: waiting
  | .breadth => waiting ++ [state]

/-- The number of edges to states not yet seen. -/
def unseen (edges : List (Int × Int)) (seen : List Int) : Nat :=
  edges.countP fun edge => edge.2 ∉ seen

/-- A state that is seen takes the edges to it out of the count. -/
theorem unseen_cons (edges : List (Int × Int)) {state : Int} {seen : List Int}
    (h : state ∉ seen) :
    unseen edges (state :: seen) + edges.countP (fun edge => edge.2 = state)
      = unseen edges seen := by
  unfold unseen
  induction edges with
  | nil => rfl
  | cons edge rest ih =>
    rw [List.countP_cons, List.countP_cons, List.countP_cons, ← ih]
    by_cases hto : edge.2 = state
    · simp only [hto, h, List.mem_cons, true_or, not_true_eq_false, not_false_eq_true,
        decide_true, decide_false, Bool.false_eq_true, if_true, if_false]
      omega
    · simp only [hto, List.mem_cons, false_or, decide_false, Bool.false_eq_true, if_false]
      omega

namespace Search

/-- The search from some states, before its first round. -/
def start (states : List Int) : Search :=
  ⟨states.eraseDups, states.eraseDups⟩

/-- Follows one edge: its target is marked and waits, unless it has been found before. -/
def visit (order : Order) (search : Search) (target : Int) : Search :=
  if target ∈ search.found then search
  else ⟨order.insert target search.waiting, target :: search.found⟩

/-- The targets of the edges out of a state, in the order of the edges. -/
def targets (edges : List (Int × Int)) (state : Int) : List Int :=
  (edges.filter (·.1 = state)).map (·.2)

/-- One round: the state in front is looked at. With no state left, nothing changes. -/
def round (order : Order) (edges : List (Int × Int)) (search : Search) : Search :=
  match search.waiting with
  | [] => search
  | state :: rest => (targets edges state).foldl (visit order) ⟨rest, search.found⟩

/-- The rounds there can be: one for each state that waits, and one for each edge to a state that
is not found yet. -/
def load (edges : List (Int × Int)) (search : Search) : Nat :=
  unseen edges search.found + search.waiting.length

variable {edges : List (Int × Int)} {search : Search} {s t : Int}

theorem mem_targets : t ∈ targets edges s ↔ (s, t) ∈ edges := by
  unfold targets
  constructor
  · intro h
    obtain ⟨⟨r, u⟩, hmem, rfl⟩ := List.mem_map.mp h
    obtain ⟨hedge, hsource⟩ := List.mem_filter.mp hmem
    rw [← of_decide_eq_true hsource]
    exact hedge
  · intro h
    exact List.mem_map.mpr ⟨(s, t), List.mem_filter.mpr ⟨h, decide_eq_true rfl⟩, rfl⟩

theorem length_insert (order : Order) (state : Int) (waiting : List Int) :
    (order.insert state waiting).length = waiting.length + 1 := by
  cases order with
  | depth => rfl
  | breadth => exact List.length_append

/-- A new state waits, but the edge to it is not counted any more. -/
theorem load_visit_le (order : Order) (h : (s, t) ∈ edges) :
    (search.visit order t).load edges ≤ search.load edges := by
  unfold visit load
  split
  · exact Nat.le_refl _
  · next hnew =>
    have hcount := unseen_cons edges hnew
    have hedge : 0 < edges.countP (fun edge => edge.2 = t) :=
      List.countP_pos_iff.mpr ⟨(s, t), h, decide_eq_true rfl⟩
    simp only [length_insert]
    omega

theorem load_visits_le (order : Order) (ts : List Int) (search : Search)
    (h : ∀ t ∈ ts, (s, t) ∈ edges) :
    (ts.foldl (visit order) search).load edges ≤ search.load edges := by
  induction ts generalizing search with
  | nil => exact Nat.le_refl _
  | cons t ts ih =>
    rw [List.forall_mem_cons] at h
    exact Nat.le_trans (ih (search.visit order t) h.2) (load_visit_le order h.1)

/-- A round costs the state that is looked at. -/
theorem load_round_lt (order : Order) (edges : List (Int × Int)) (h : search.waiting ≠ []) :
    (search.round order edges).load edges < search.load edges := by
  obtain ⟨state, rest, hwaiting⟩ := List.exists_cons_of_ne_nil h
  have hvisits := load_visits_le order (targets edges state) ⟨rest, search.found⟩
    fun _ => mem_targets.mp
  simp only [round, hwaiting]
  refine Nat.lt_of_le_of_lt hvisits ?_
  simp only [load, hwaiting, List.length_cons]
  omega

/-- What is found when no state waits any more. -/
def run (order : Order) (edges : List (Int × Int)) (search : Search) : List Int :=
  if search.waiting = [] then search.found
  else run order edges (search.round order edges)
termination_by search.load edges
decreasing_by exact load_round_lt order edges ‹_›

end Search

/-- Every state that can be reached from the given ones, by a search in the given order. -/
def reach (order : Search.Order) (edges : List (Int × Int)) (states : List Int) : List Int :=
  (Search.start states).run order edges

/-- Puts a number into an ascending list, unless it is there. -/
def insertAscending (n : Int) : List Int → List Int
  | [] => [n]
  | m :: rest =>
    if n < m then n :: m :: rest
    else if n = m then m :: rest
    else m :: insertAscending n rest

/-- The members of a list, each once and in ascending order. -/
def ascending (states : List Int) : List Int :=
  states.foldr insertAscending []

end RegexAutomata
