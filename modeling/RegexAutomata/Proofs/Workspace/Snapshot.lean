import RegexAutomata.Proofs.Automaton.Trim
import RegexAutomata.Proofs.Workspace.Frame

/-!
# Observers of automata that grow

An observer follows the arrows that it noted, but looks up the states, the accepting state and what
can be reached in the automaton as it is when it is asked. So it answers out of two automata, once
the one that it watches has changed.

What it follows never changes (`answer_closure`, `answer_advance`). When a constructed automaton has
others put behind it, its accepting state moves behind all states that it had, where none of the
noted arrows leads: no text is accepted any more (`accepts_outgrown`). But what can be reached is
everything, as it would be for a new observer (`answer_reachable`).

Main result: `snapshot`.
-/

namespace RegexAutomata

namespace Observer

variable {a live : Automaton}

/-! ## Two automata in one observer -/

/-- What is followed does not depend on what has become of the automaton. -/
theorem answer_closure (a live : Automaton) (states : List Int) :
    (Observer.mk a.arrows live).answer (.closure states) = a.observer.answer (.closure states) :=
  rfl

theorem answer_advance (a live : Automaton) (states : List Int) (symbol : String) :
    (Observer.mk a.arrows live).answer (.advance states symbol)
      = a.observer.answer (.advance states symbol) :=
  rfl

/-- The noted arrows of a compact automaton lead to none but its states. -/
theorem accepts_outgrown (ha : a.Compact) (hlive : live.accept ∉ a.states) (text : String) :
    (Observer.mk a.arrows live).accepts text = false := by
  refine Bool.eq_false_iff.mpr fun haccepts => hlive ?_
  obtain ⟨-, symbols, walk, -⟩ := (accepts_iff _ text).mp haccepts
  exact ha.mem_states_of_leads ⟨symbols, walk⟩ ha.start_mem_states

/-- All states of a constructed automaton can be reached, whatever was noted. -/
theorem answer_reachable (h : live.Constructed) (noted : List Arrow) :
    (Observer.mk noted live).answer .reachable = .states live.states := by
  have hfragment := h.isFragment
  have hreachable : ∀ s, s ∈ (Observer.mk noted live).reachable ↔ s ∈ live.states := by
    intro s
    rw [mem_reachable_iff _ (Automaton.isEmpty_eq_false hfragment.states_ne_nil)]
    exact ⟨fun hleads => hfragment.mem_states_of_leads hleads hfragment.start_mem_states,
      h.trim.accessible s⟩
  have hsorted : live.states.Pairwise (· < ·) := hfragment.pairwise_states
  have hascending : ascending (Observer.mk noted live).reachable = live.states := by
    refine (pairwise_ascending _).eq_of_mem_iff hsorted fun s => ?_
    rw [mem_ascending, hreachable s]
  rw [answer, hascending]

end Observer

namespace Automaton

variable {a : Automaton} {rights : List Automaton}

/-! ## Growing -/

theorem constructed_foldl_append (ha : Constructed a) (h : ∀ r ∈ rights, Constructed r) :
    Constructed (rights.foldl append a) := by
  induction rights generalizing a with
  | nil => exact ha
  | cons r rest ih =>
    exact ih (ha.append (h r List.mem_cons_self)) fun s hs => h s (List.mem_cons_of_mem _ hs)

/-- Each automaton that is put behind brings a state at least. -/
theorem size_foldl_append (ha : Constructed a) (h : ∀ r ∈ rights, Constructed r) :
    a.size + rights.length ≤ (rights.foldl append a).size := by
  induction rights generalizing a with
  | nil => exact Nat.le_refl _
  | cons r rest ih =>
    have hr := h r List.mem_cons_self
    have hrest := ih (ha.append hr) fun s hs => h s (List.mem_cons_of_mem _ hs)
    have hsize := ha.isFragment.size_append hr.isFragment.toCompact
    have htwo := hr.isFragment.two_le_size
    rw [List.foldl_cons, List.length_cons]
    omega

/-- The accepting state moves behind all states that there were. -/
theorem accept_foldl_append (ha : Constructed a) (h : ∀ r ∈ rights, Constructed r)
    (hne : rights ≠ []) : (rights.foldl append a).accept ∉ a.states := by
  intro hmem
  have haccept := (constructed_foldl_append ha h).isFragment.accept_eq
  have hsize := size_foldl_append ha h
  have hpos := List.length_pos_iff.mpr hne
  have hlt := (ha.isFragment.mem_states_iff.mp hmem).2
  omega

end Automaton

namespace Workspace

open Automaton

/-- `Grows k w steps rights`: the steps, done one after the other from `w` on, put the constructed
automata `rights` behind the automaton `k`, in this order, and do nothing else with it. -/
inductive Grows (k : Nat) : Workspace → List Step → List Automaton → Prop where
  | done (w : Workspace) : Grows k w [] []
  | aside {w : Workspace} {step : Step} {rest : List Step} {rights : List Automaton}
      (leaves : w.Leaves k step) (grows : Grows k (w.next step) rest rights) :
      Grows k w (step :: rest) rights
  | append {w : Workspace} {left right : String} {r : Nat} {rest : List Step}
      {rights : List Automaton} (left_eq : w.number? left = some k)
      (right_eq : w.number? right = some r) (other : r ≠ k)
      (constructed : (w.memory.read r).Constructed)
      (grows : Grows k (w.next (.append left right)) rest rights) :
      Grows k w (.append left right :: rest) (w.memory.read r :: rights)

variable {w : Workspace} {k : Nat} {steps : List Step} {rights : List Automaton}
  {name slot : String}

theorem Grows.constructed (h : Grows k w steps rights) : ∀ r ∈ rights, r.Constructed := by
  induction h with
  | done w => exact nofun
  | aside _ _ ih => exact ih
  | append _ _ _ hr _ ih => exact List.forall_mem_cons.mpr ⟨hr, ih⟩

/-- What has become of the automaton. -/
theorem Grows.read_run (h : Grows k w steps rights) (hw : Sound w) (hk : k < w.memory.size)
    (ha : (w.memory.read k).Constructed) :
    (w.run steps).memory.read k = rights.foldl Automaton.append (w.memory.read k) := by
  induction h with
  | done w => rfl
  | @aside w step rest rights leaves _ ih =>
    have hsame : (w.next step).memory.read k = w.memory.read k := read_next hw hk leaves
    have hrest := ih (hw.next step) (Nat.lt_of_lt_of_le hk (size_le_next hw step)) (hsame ▸ ha)
    rw [hsame] at hrest
    exact hrest
  | @append w left right r rest rights left_eq right_eq other hr _ ih =>
    have hplan : ∃ reply, w.plan (.append left right)
        = .ok (.change k ((w.memory.read k).append (w.memory.read r)) reply) := by
      rw [plan, planSlot, left_eq]
      simp only [planSlot, right_eq]
      rw [append?_eq_ok ha.isFragment.states_ne_nil]
      exact ⟨_, rfl⟩
    obtain ⟨reply, hplan⟩ := hplan
    have hread : (w.next (.append left right)).memory.read k
        = (w.memory.read k).append (w.memory.read r) := (next_of_change hw hplan).read_self
    have hrest := ih (hw.next _) (Nat.lt_of_lt_of_le hk (size_le_next hw _))
      (hread ▸ ha.append hr)
    rw [hread] at hrest
    exact hrest

/-! ## Asking -/

theorem reply_ask {watch : Watch} (h : w.watch? name = some watch) (query : Query) :
    w.reply (.ask name query) = .ok (.answer ((w.observer watch).answer query)) := by
  simp only [reply, act, h]

/-- An observer is asked about the arrows of its automaton as they were when it was made, and
about the automaton as it is. -/
theorem reply_ask_later (hw : Sound w) (hslot : w.number? slot = some k) (steps : List Step)
    (hname : ∀ other, .observe name other ∉ steps) (query : Query) :
    ((w.next (.observe name slot)).run steps).reply (.ask name query)
      = .ok (.answer ((Observer.mk (w.memory.read k).arrows
          (((w.next (.observe name slot)).run steps).memory.read k)).answer query)) := by
  have hmade : (w.next (.observe name slot)).watch? name = some ⟨w.memory.arrows k, k⟩ := by
    simp only [next, act, withSlot, hslot]
    rw [watch?_cons, if_pos (beq_self_eq_true name)]
  have hlater := (watch?_run (hw.next (.observe name slot)) hname).trans hmade
  rw [reply_ask hlater query]
  rfl

/-- **An observer mixes a snapshot with the automaton as it is.** Whatever is done after it was
made, short of making another one under its name, what it answers about closures and about symbols
is what it would have answered at once. If its automaton was constructed, and has since been
changed only by putting other constructed ones behind it, and by one at least, then it accepts no
text, while it reaches all states of what its automaton has become. -/
theorem snapshot (before : List Step) (name slot : String) (k : Nat) (later : List Step)
    (hslot : (empty.run before).number? slot = some k)
    (hname : ∀ other, .observe name other ∉ later) :
    let w := empty.run before
    let a := w.memory.read k
    let made := w.next (.observe name slot)
    let now := made.run later
    (∀ states,
      made.reply (.ask name (.closure states))
        = .ok (.answer (a.observer.answer (.closure states))) ∧
      now.reply (.ask name (.closure states)) = made.reply (.ask name (.closure states))) ∧
    (∀ states symbol,
      made.reply (.ask name (.advance states symbol))
        = .ok (.answer (a.observer.answer (.advance states symbol))) ∧
      now.reply (.ask name (.advance states symbol))
        = made.reply (.ask name (.advance states symbol))) ∧
    ∀ rights, a.Constructed → Grows k made later rights → rights ≠ [] →
      now.memory.read k = rights.foldl Automaton.append a ∧
      (∀ text, now.reply (.ask name (.accepts text)) = .ok (.answer (.verdict false))) ∧
      now.reply (.ask name .reachable) = .ok (.answer (.states (now.memory.read k).states)) := by
  intro w a made now
  have hw : Sound w := sound_empty.run before
  have hfirst := @reply_ask_later w k name slot hw hslot [] nofun
  have hlater := reply_ask_later hw hslot later hname
  refine ⟨fun states => ?_, fun states symbol => ?_, fun rights ha hgrows hne => ?_⟩
  · have hmade := hfirst (.closure states)
    have hnow := hlater (.closure states)
    rw [Observer.answer_closure] at hmade hnow
    exact ⟨hmade, hnow.trans hmade.symm⟩
  · have hmade := hfirst (.advance states symbol)
    have hnow := hlater (.advance states symbol)
    rw [Observer.answer_advance] at hmade hnow
    exact ⟨hmade, hnow.trans hmade.symm⟩
  · have hk : k < w.memory.size := hw.number_lt slot k hslot
    have hsame : made.memory.read k = a := read_next hw hk nofun
    have hgrown : now.memory.read k = rights.foldl Automaton.append a := by
      rw [← hsame]
      exact hgrows.read_run (hw.next _) (Nat.lt_of_lt_of_le hk (size_le_next hw _)) (hsame ▸ ha)
    have hrights := hgrows.constructed
    refine ⟨hgrown, fun text => ?_, ?_⟩
    · have houtgrown : (now.memory.read k).accept ∉ a.states := by
        rw [hgrown]
        exact accept_foldl_append ha hrights hne
      rw [hlater, Observer.answer, Observer.accepts_outgrown ha.isFragment.toCompact houtgrown]
    · have hconstructed : (now.memory.read k).Constructed := by
        rw [hgrown]
        exact constructed_foldl_append ha hrights
      rw [hlater, Observer.answer_reachable hconstructed]

/-- An automaton that grows twice while other things are made and one arrow is refused. What the
observer follows is still the arrow of `x`; it accepts neither `x` nor what is accepted now. -/
theorem snapshot_grown_twice :
    let before : List Step := [.single "a" "x", .single "b" "y", .star "s" "b"]
    let later : List Step := [.append "a" "s", .add "a" ⟨0, "", 1⟩, .single "c" "z",
      .append "a" "c"]
    let made := (empty.run before).next (.observe "o" "a")
    let now := made.run later
    (empty.run before).number? "a" = some 0 ∧
      Grows 0 made later [(Automaton.single 'y').star, .single 'z'] ∧
      now.reply (.ask "o" (.advance [0, 4] "x")) = .ok (.answer (.states [1])) ∧
      (∀ text, now.reply (.ask "o" (.accepts text)) = .ok (.answer (.verdict false))) ∧
      now.reply (.ask "o" .reachable) = .ok (.answer (.states [0, 1, 2, 3, 4, 5])) := by
  intro before later made now
  let between := made.run [.append "a" "s", .add "a" ⟨0, "", 1⟩, .single "c" "z"]
  have hslot : (empty.run before).number? "a" = some 0 := rfl
  have hstar : made.memory.read 2 = (Automaton.single 'y').star := by decide +kernel
  have hsingle : between.memory.read 3 = .single 'z' := by decide +kernel
  have hgrows : Grows 0 made later [(Automaton.single 'y').star, .single 'z'] := by
    rw [← hstar, ← hsingle]
    refine .append (by decide +kernel) (by decide +kernel) (by decide) ?_ ?_
    · rw [hstar]
      exact .star (.single 'y')
    refine .aside (fun _ => ⟨.fault .symbolLength, by decide +kernel⟩) (.aside nofun ?_)
    refine .append (by decide +kernel) (by decide +kernel) (by decide) ?_ (.done _)
    show (between.memory.read 3).Constructed
    rw [hsingle]
    exact .single 'z'
  obtain ⟨-, hadvance, hgrown⟩ := snapshot before "o" "a" 0 later hslot (by simp [later])
  obtain ⟨hread, haccepts, hreachable⟩ := hgrown _ (.single 'x') hgrows nofun
  obtain ⟨hfirst, hlater⟩ := hadvance [0, 4] "x"
  have hanswer : ((empty.run before).memory.read 0).observer.answer (.advance [0, 4] "x")
      = .states [1] := by decide +kernel
  rw [hanswer] at hfirst
  rw [hread] at hreachable
  exact ⟨hslot, hgrows, hlater.trans hfirst, haccepts, hreachable⟩

end Workspace

end RegexAutomata
