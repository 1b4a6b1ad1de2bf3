import RegexAutomata.Proofs.Automaton.Trim

/-!
# Breadth-first search

What can be reached at all is found by breadth: the states that wait are a queue. The state in
front is taken off, the arrows out of it are followed one after the other, and a target that nobody
has found yet is marked and put at the end.

That the search ends, and that it finds each once the states that chains of edges lead to, holds of
a search in any order. What is left is to read chains of edges as walks, and to look at an automaton
without states: the search would find its start, but the observer does not answer it.

Main result: `reachable_breadth_first`.
-/

namespace RegexAutomata.Observer

theorem mem_reachable_iff_leads (o : Observer) (t : Int) :
    t ∈ o.reachable ↔ o.live.states ≠ [] ∧ Leads o.live.arrows startState t := by
  by_cases hstates : o.live.states = []
  · have hnone : o.reachable = [] := by
      rw [reachable, Automaton.isEmpty, hstates]
      rfl
    rw [hnone]
    exact ⟨fun h => absurd h List.not_mem_nil, fun h => absurd hstates h.1⟩
  · rw [o.mem_reachable_iff (Automaton.isEmpty_eq_false hstates)]
    exact (and_iff_right hstates).symm

/-- **Reachability by breadth.** A search from the start along the arrows that the automaton now
has, whatever their symbols and wherever they lead, runs out of states after at most one round more
than there are arrows. It has found, each once, the states that walks from the start lead to; and
these are the answer of an observer, in order, unless the automaton has no states. -/
theorem reachable_breadth_first (o : Observer) :
    ∃ rounds ≤ o.live.arrows.length + 1, ∃ found : List Int,
      (Search.round .breadth
          (o.live.arrows.map fun arrow => (arrow.source, arrow.target)))^[rounds]
        (.start [startState]) = ⟨[], found⟩ ∧
      found.Nodup ∧
      (∀ t, t ∈ found ↔ ∃ symbols, Walk o.live.arrows startState symbols t) ∧
      o.reachable = (if o.live.isEmpty then [] else found) ∧
      o.answer .reachable = .states (if o.live.isEmpty then [] else ascending found) ∧
      ∀ t, t ∈ o.reachable ↔
        o.live.states ≠ [] ∧ ∃ symbols, Walk o.live.arrows startState symbols t := by
  obtain ⟨rounds, hrounds, hend⟩ := exists_rounds_reach .breadth
    (o.live.arrows.map fun arrow => (arrow.source, arrow.target)) [startState]
  rw [List.length_map] at hrounds
  refine ⟨rounds, hrounds, _, hend, nodup_reach, fun t => Leads.mem_reach_iff, rfl, ?_,
    o.mem_reachable_iff_leads⟩
  rw [answer, reachable]
  congr 1
  split
  · rfl
  · rfl

/-- A cycle, two arrows side by side, a target that is not listed, and a state out of reach. -/
example :
    (Automaton.mk [0, 1, 2] [⟨0, 'a', 1⟩, ⟨1, 'E', 0⟩, ⟨0, 'b', 1⟩, ⟨1, 'c', 7⟩, ⟨2, 'a', 0⟩]
      1).observer.answer .reachable = Answer.states [0, 1, 7] := by
  cbv

end RegexAutomata.Observer
