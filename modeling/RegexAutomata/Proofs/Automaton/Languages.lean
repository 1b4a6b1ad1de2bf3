import RegexAutomata.Proofs.Automaton.Gluing

/-!
# The texts that constructed automata accept

The verdict of an observer on a construction, in terms of its verdicts on the parts: `append`
accepts concatenations, `star` any number of texts in a row, and `alternate` what either side
accepts (`accepts_append_iff`, `accepts_star_iff`, `accepts_alternate_iff`).

The parts need not come from constructions themselves. They have to be compact, because the
constructions renumber; but arrows may enter the start or leave the accepting state, and that
state may be any, the start included. Only `append` asks for more, since it adds no arrow that
would keep its two sides apart.
-/

namespace RegexAutomata.Automaton

namespace Compact

variable {a : Automaton}

theorem accepts_iff (ha : Compact a) (text : String) :
    a.observer.accepts text = true ↔ a.Reads text.toList :=
  a.accepts_observer_iff ha.states_ne_nil text

theorem accepts_ofList_iff (ha : Compact a) (word : List Char) :
    a.observer.accepts (String.ofList word) = true ↔ a.Reads word := by
  rw [ha.accepts_iff, String.toList_ofList]

end Compact

/-- **Concatenation.** Let the left side accept in its last state, and let no arrow leave that
state or no arrow enter the start of the right side. Then the right side can be put behind the
left, and the result accepts the texts that are a text of the left side followed by one of the
right. -/
theorem accepts_append_iff (l r : Automaton) (hl : Compact l) (hlast : l.accept = l.size - 1)
    (hr : Compact r) (hglue : (∀ arrow ∈ l.arrows, arrow.source ≠ l.accept) ∨
      (∀ arrow ∈ r.arrows, arrow.target ≠ startState)) :
    ∃ joined, l.append? r = .ok joined ∧ ∀ text : String,
      joined.observer.accepts text = true ↔
        ∃ front back : String, l.observer.accepts front = true ∧
          r.observer.accepts back = true ∧ text = front ++ back := by
  refine ⟨l.append r, append?_eq_ok hl.states_ne_nil r, fun text => ?_⟩
  rw [(hl.append hr).accepts_iff, reads_append hl hlast hr hglue]
  constructor
  · intro h
    obtain ⟨front, back, hfront, hback, htext⟩ := h
    refine ⟨String.ofList front, String.ofList back, (hl.accepts_ofList_iff front).mpr hfront,
      (hr.accepts_ofList_iff back).mpr hback, ?_⟩
    rw [← String.ofList_append, ← htext, String.ofList_toList]
  · intro h
    obtain ⟨front, back, hfront, hback, rfl⟩ := h
    exact ⟨front.toList, back.toList, (hl.accepts_iff front).mp hfront,
      (hr.accepts_iff back).mp hback, String.toList_append⟩

/-- A left side that goes round at its accepting state, so that only the start of the right side
keeps the two apart: `ab*` and `c`. -/
theorem accepts_append_round :
    ∃ l : Automaton, l.arrows = [⟨0, 'a', 1⟩, ⟨1, 'b', 1⟩] ∧ Compact l ∧
      (∃ arrow ∈ l.arrows, arrow.source = l.accept) ∧
      ∃ joined, l.append? (single 'c') = .ok joined ∧
        joined.observer.accepts "abbc" = true := by
  have hcompact : Compact ⟨[0, 1], [⟨0, 'a', 1⟩, ⟨1, 'b', 1⟩], 1⟩ := by decide
  obtain ⟨joined, hjoined, haccepts⟩ := accepts_append_iff _ (single 'c') hcompact rfl
    (isFragment_single 'c').toCompact (.inr (isFragment_single 'c').no_entry)
  have hfront := (hcompact.accepts_iff "abb").mpr
    ⟨['a', 'b', 'b'], .step (.head _) (.step (.tail _ (.head _)) (.single (.tail _ (.head _)))), rfl⟩
  have hback := ((isFragment_single 'c').accepts_iff "c").mpr ⟨['c'], .single (.head _), rfl⟩
  exact ⟨_, rfl, hcompact, ⟨⟨1, 'b', 1⟩, .tail _ (.head _), rfl⟩, joined, hjoined,
    (haccepts "abbc").mpr ⟨"abb", "c", hfront, hback, rfl⟩⟩

/-- **Repetition.** A repeated automaton accepts the texts that are any number of texts in a row,
also none, that the automaton accepts. -/
theorem accepts_star_iff (a : Automaton) (ha : Compact a) (text : String) :
    a.star.observer.accepts text = true ↔
      ∃ parts : List String, (∀ part ∈ parts, a.observer.accepts part = true) ∧
        text = String.join parts := by
  rw [(isFragment_star ha).accepts_iff, reads_star ha]
  constructor
  · intro h
    obtain ⟨parts, hparts, htext⟩ := h
    refine ⟨parts.map String.ofList, fun part hpart => ?_, ?_⟩
    · obtain ⟨word, hword, rfl⟩ := List.mem_map.mp hpart
      exact (ha.accepts_ofList_iff word).mpr (hparts word hword)
    · rw [← String.toList_inj, htext, String.toList_join, List.flatMap_map]
      simp only [String.toList_ofList, List.flatMap_id']
  · intro h
    obtain ⟨parts, hparts, rfl⟩ := h
    refine ⟨parts.map String.toList, fun word hword => ?_, String.toList_join⟩
    obtain ⟨part, hpart, rfl⟩ := List.mem_map.mp hword
    exact (ha.accepts_iff part).mp (hparts part hpart)

/-- An automaton that accepts where it starts, with arrows into that state and out of it. -/
theorem accepts_star_round :
    ∃ a : Automaton, a.arrows = [⟨0, 'a', 1⟩, ⟨1, 'b', 0⟩] ∧ a.accept = startState ∧ Compact a ∧
      a.star.observer.accepts "abab" = true := by
  have hcompact : Compact ⟨[0, 1], [⟨0, 'a', 1⟩, ⟨1, 'b', 0⟩], 0⟩ := by decide
  have hround := (hcompact.accepts_iff "ab").mpr
    ⟨['a', 'b'], .step (.head _) (.single (.tail _ (.head _))), rfl⟩
  have hnone := (hcompact.accepts_iff "").mpr ⟨[], .stay _, rfl⟩
  refine ⟨_, rfl, rfl, hcompact, (accepts_star_iff _ hcompact "abab").mpr
    ⟨["ab", "", "ab"], ?_, rfl⟩⟩
  simp only [List.forall_mem_cons]
  exact ⟨hround, hnone, hround, nofun⟩

/-- **Choice.** An alternative of two automata accepts what one of them accepts. -/
theorem accepts_alternate_iff (l r : Automaton) (hl : Compact l) (hr : Compact r)
    (text : String) :
    (l.alternate r).observer.accepts text = true ↔
      l.observer.accepts text = true ∨ r.observer.accepts text = true := by
  rw [(isFragment_alternate hl hr).accepts_iff, reads_alternate hl hr, hl.accepts_iff,
    hr.accepts_iff]

/-- Sides of different sizes that both accept where they start: `(ab)*` and `c*`. -/
theorem accepts_alternate_loops :
    ∃ l r : Automaton, l.arrows = [⟨0, 'a', 1⟩, ⟨1, 'b', 0⟩] ∧ r.arrows = [⟨0, 'c', 0⟩] ∧
      Compact l ∧ Compact r ∧
      (l.alternate r).observer.accepts "ab" = true ∧
      (l.alternate r).observer.accepts "cc" = true := by
  have hl : Compact ⟨[0, 1], [⟨0, 'a', 1⟩, ⟨1, 'b', 0⟩], 0⟩ := by decide
  have hr : Compact ⟨[0], [⟨0, 'c', 0⟩], 0⟩ := by decide
  have hleft := (hl.accepts_iff "ab").mpr
    ⟨['a', 'b'], .step (.head _) (.single (.tail _ (.head _))), rfl⟩
  have hright := (hr.accepts_iff "cc").mpr
    ⟨['c', 'c'], .step (.head _) (.single (.head _)), rfl⟩
  exact ⟨_, _, rfl, rfl, hl, hr, (accepts_alternate_iff _ _ hl hr "ab").mpr (.inl hleft),
    (accepts_alternate_iff _ _ hl hr "cc").mpr (.inr hright)⟩

end RegexAutomata.Automaton
