import RegexAutomata.Proofs.Automaton.Acceptance

/-!
# Closures

The closure of some states is what can be reached from them along arrows that read nothing. An
observer follows the arrows that it noted when it was made, so what becomes of the automaton
later makes no difference to it. Which states it is asked about is free: they may repeat, and
they need not be states of the automaton at all.

`mem_closure_iff_chain` carries everything: the closure is the image of the states under the
chains of silent arrows. That it is a closure in the usual sense follows, because chains have
no length that counts: the chain of no arrow, and two chains that meet, are chains.

Main result: `silent_closure`.
-/

namespace RegexAutomata

/-- An arrow that reads nothing leads from `s` to `t`. -/
def Silent (arrows : List Arrow) (s t : Int) : Prop := ⟨s, epsilon, t⟩ ∈ arrows

namespace Observer

variable (o : Observer) {states more : List Int} {t : Int}

/-- The closure holds what chains of silent arrows lead to. -/
theorem mem_closure_iff_chain :
    t ∈ o.closure states ↔ ∃ s ∈ states, Relation.ReflTransGen (Silent o.noted) s t := by
  have hsilent : Linked o.silentEdges = Silent o.noted := by
    funext s u
    exact propext (o.linked_silentEdges s u)
  rw [closure, mem_reach_iff, hsilent]

/-- The search of a closure ends. A round is at most one of a state that was asked about or of a
silent arrow. -/
theorem exists_rounds_closure (states : List Int) :
    ∃ rounds ≤ o.noted.length + states.eraseDups.length,
      (Search.round .depth o.silentEdges)^[rounds] (.start states) = ⟨[], o.closure states⟩ := by
  obtain ⟨rounds, hrounds, hend⟩ := exists_rounds_reach .depth o.silentEdges states
  have hsilent : o.silentEdges.length ≤ o.noted.length := by
    rw [silentEdges, List.length_map]
    exact List.length_filter_le _ _
  exact ⟨rounds, by omega, hend⟩

theorem subset_closure (states : List Int) : states ⊆ o.closure states :=
  fun _ hs => o.mem_closure_iff_chain.mpr ⟨_, hs, .refl⟩

theorem mem_closure_closure : t ∈ o.closure (o.closure states) ↔ t ∈ o.closure states := by
  constructor
  · intro h
    obtain ⟨u, hu, hchain⟩ := o.mem_closure_iff_chain.mp h
    obtain ⟨s, hs, hfirst⟩ := o.mem_closure_iff_chain.mp hu
    exact o.mem_closure_iff_chain.mpr ⟨s, hs, hfirst.trans hchain⟩
  · exact fun h => o.subset_closure _ h

theorem closure_mono (h : states ⊆ more) : o.closure states ⊆ o.closure more := by
  intro t ht
  obtain ⟨s, hs, hchain⟩ := o.mem_closure_iff_chain.mp ht
  exact o.mem_closure_iff_chain.mpr ⟨s, h hs, hchain⟩

theorem mem_closure_append :
    t ∈ o.closure (states ++ more) ↔ t ∈ o.closure states ∨ t ∈ o.closure more := by
  constructor
  · intro h
    obtain ⟨s, hs, hchain⟩ := o.mem_closure_iff_chain.mp h
    rcases List.mem_append.mp hs with hs | hs
    · exact .inl (o.mem_closure_iff_chain.mpr ⟨s, hs, hchain⟩)
    · exact .inr (o.mem_closure_iff_chain.mpr ⟨s, hs, hchain⟩)
  · intro h
    rcases h with h | h
    · exact o.closure_mono (List.subset_append_left _ _) h
    · exact o.closure_mono (List.subset_append_right _ _) h

/-- **The silent closure.** Let an observer be made of an automaton, and the automaton become
another one. Whatever states the observer is asked about, its search by depth runs out of states,
after at most as many rounds as there were arrows and there are different states to begin with, and
it answers with the states, in order and each once, that chains of the silent arrows of the first
automaton lead to. So the closure contains the states it is made of, is its own closure, grows with the
states, and is made of the closures of their parts. -/
theorem silent_closure (a later : Automaton) (states : List Int) :
    let o : Observer := { a.observer with live := later }
    (∃ rounds ≤ a.arrows.length + states.eraseDups.length,
      (Search.round .depth o.silentEdges)^[rounds] (.start states) = ⟨[], o.closure states⟩) ∧
    (∃ members, o.answer (.closure states) = .states members ∧ members.Pairwise (· < ·) ∧
      ∀ t, t ∈ members ↔ ∃ s ∈ states, Relation.ReflTransGen (Silent a.arrows) s t) ∧
    states ⊆ o.closure states ∧
    o.answer (.closure (o.closure states)) = o.answer (.closure states) ∧
    (∀ more, states ⊆ more → o.closure states ⊆ o.closure more) ∧
    ∀ more t, t ∈ o.closure (states ++ more) ↔ t ∈ o.closure states ∨ t ∈ o.closure more := by
  intro o
  refine ⟨o.exists_rounds_closure states, ?_, o.subset_closure states, ?_,
    fun _ h => o.closure_mono h, fun _ _ => o.mem_closure_append⟩
  · refine ⟨ascending (o.closure states), rfl, pairwise_ascending _, fun t => ?_⟩
    rw [mem_ascending, o.mem_closure_iff_chain]
    rfl
  · have hsame : ascending (o.closure (o.closure states)) = ascending (o.closure states) :=
      ascending_eq_iff.mpr fun _ => o.mem_closure_closure
    rw [answer, answer, hsame]

/-- A silent cycle, an arrow that reads, and a state that the automaton does not have. -/
example :
    (Automaton.mk [0, 1] [⟨0, 'E', 1⟩, ⟨1, 'E', 0⟩, ⟨1, 'a', 2⟩] 1).observer.answer
      (.closure [1, 7, 1]) = Answer.states [0, 1, 7] := by
  cbv

end Observer

end RegexAutomata
