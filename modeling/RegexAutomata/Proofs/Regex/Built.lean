import RegexAutomata.Proofs.Automaton.Degrees
import RegexAutomata.Proofs.Automaton.Trim
import RegexAutomata.Proofs.Regex.Recognition

/-!
# What every built automaton is like

Whatever text it comes from, a built automaton is put together by the four constructions
(`constructed_of_build`). So it has every property that holds of the single symbol and is kept
by the other three, and the properties here are read off in this way.

* `representation_invariant`: states numbered from `0` in order, the last of them accepting, no
  arrow astray, none into the start and none out of the accepting state;
* `build_trim`: no state is useless, and an observer finds them all;
* `build_sparse`: no three arrows meet, and letters do not compete.
-/

namespace RegexAutomata

open Automaton (Constructed IsFragment)

theorem constructed_of_build {regex : Option String} {a : Automaton} (h : build regex = .ok a) :
    Constructed a := by
  cases regex with
  | none => contradiction
  | some w =>
    obtain ⟨p, -, -, rfl⟩ := exists_text_of_build h
    exact p.constructed_automaton

/-- **Representation invariant.** Everything that the four constructions make is a fragment, and
on such a left side `append?` does not fail; so every automaton that is built from a text is a
fragment. -/
theorem representation_invariant (a : Automaton) :
    (Constructed a → IsFragment a ∧ ∀ r, a.append? r = .ok (a.append r)) ∧
      ∀ regex, build regex = .ok a → Constructed a ∧ IsFragment a := by
  refine ⟨fun h => ⟨h.isFragment, fun r => ?_⟩, fun regex h => ?_⟩
  · exact Automaton.append?_eq_ok h.isFragment.states_ne_nil r
  · have hconstructed := constructed_of_build h
    exact ⟨hconstructed, hconstructed.isFragment⟩

/-- **Built automata are trim.** All states of a built automaton, and no other numbers, can be
reached from the start, as an observer finds, and from each of them arrows lead to the accepting
state. -/
theorem build_trim (w : String) (a : Automaton) (h : build w = .ok a) :
    (∀ s, s ∈ a.observer.reachable ↔ s ∈ a.states) ∧
      ∀ s ∈ a.states, ∃ symbols, Walk a.arrows s symbols a.accept := by
  have hconstructed := constructed_of_build h
  have hfragment := hconstructed.isFragment
  have htrim := hconstructed.trim
  have hstates : a.observer.live.isEmpty = false :=
    Automaton.isEmpty_eq_false hfragment.states_ne_nil
  refine ⟨fun s => ?_, htrim.productive⟩
  rw [Observer.mem_reachable_iff _ hstates]
  constructor
  · exact fun hleads => hfragment.mem_states_of_leads hleads hfragment.start_mem_states
  · exact htrim.accessible s

/-- A repeated group that is left open, with a choice in it: `(a|b)*(c`. -/
theorem build_trim_open_group :
    ∃ a, build "(a|b)*(c" = .ok a ∧ a.states = [0, 1, 2, 3, 4, 5, 6, 7, 8] ∧
      (∀ s, s ∈ a.observer.reachable ↔ s ∈ a.states) ∧
      ∀ s ∈ a.states, ∃ symbols, Walk a.arrows s symbols a.accept := by
  let tree : Phrase .regex := .only (.followed
    (.alone (.starred (.plain (.group (.either (.alone (.plain (.literal 'a' rfl)))
      (.only (.alone (.plain (.literal 'b' rfl)))))))))
    (.plain (.group (.only (.alone (.plain (.literal 'c' rfl)))))))
  have hbuild : build "(a|b)*(c" = .ok tree.automaton := build_of_text (k := 1) rfl
  exact ⟨_, hbuild, rfl, build_trim _ _ hbuild⟩

/-- **Arrows hardly meet.** In a built automaton at most two arrows leave a state and at most two
enter it, and where there are two they read nothing. No arrow is listed twice. -/
theorem build_sparse (w : String) (a : Automaton) (h : build w = .ok a) :
    (∀ s, (a.arrows.filter (·.source = s)).length ≤ 2 ∧
      ((a.arrows.filter (·.source = s)).length = 2 →
        ∀ arrow ∈ a.arrows, arrow.source = s → arrow.symbol = epsilon)) ∧
    (∀ s, (a.arrows.filter (·.target = s)).length ≤ 2 ∧
      ((a.arrows.filter (·.target = s)).length = 2 →
        ∀ arrow ∈ a.arrows, arrow.target = s → arrow.symbol = epsilon)) ∧
    a.arrows.Nodup := by
  have hsparse := (constructed_of_build h).sparse
  refine ⟨fun s => ⟨hsparse.length_le .source s, fun htwo arrow hmem hsource => ?_⟩,
    fun s => ⟨hsparse.length_le .target s, fun htwo arrow hmem htarget => ?_⟩, hsparse.nodup⟩
  · exact hsparse.silent .source s htwo arrow (mem_meeting.mpr ⟨hmem, hsource⟩)
  · exact hsparse.silent .target s htwo arrow (mem_meeting.mpr ⟨hmem, htarget⟩)

/-- A repetition of a repetition behind a letter, where pairs meet at either tip, and a group
that is left open: `a(b*)*(c`. -/
theorem build_sparse_nested_star :
    ∃ a, build "a(b*)*(c" = .ok a ∧
      (a.arrows.filter (·.source = 1)).length = 2 ∧ (a.arrows.filter (·.target = 2)).length = 2 ∧
      ((∀ s, (a.arrows.filter (·.source = s)).length ≤ 2 ∧
        ((a.arrows.filter (·.source = s)).length = 2 →
          ∀ arrow ∈ a.arrows, arrow.source = s → arrow.symbol = epsilon)) ∧
      (∀ s, (a.arrows.filter (·.target = s)).length ≤ 2 ∧
        ((a.arrows.filter (·.target = s)).length = 2 →
          ∀ arrow ∈ a.arrows, arrow.target = s → arrow.symbol = epsilon)) ∧
      a.arrows.Nodup) := by
  let literal (c : Char) (h : Symbol.isLiteral c = true) : Phrase .factor := .plain (.literal c h)
  let inner : Phrase .regex := .only (.alone (.starred (literal 'b' rfl)))
  let tree : Phrase .regex := .only (.followed
    (.followed (.alone (literal 'a' rfl)) (.starred (.plain (.group inner))))
    (.plain (.group (.only (.alone (literal 'c' rfl))))))
  have hbuild : build "a(b*)*(c" = .ok tree.automaton := build_of_text (k := 1) rfl
  exact ⟨_, hbuild, rfl, rfl, build_sparse _ _ hbuild⟩

end RegexAutomata
