import RegexAutomata.Proofs.Automaton.Constructions

/-!
# One automaton behind the other

`append` glues two automata together: the last state of the left side and the start of the right
side become one state, and no arrow is added. So a walk that has come to the glued state may go
on with an arrow of either side, and it may come back. `Turns` is everything that can follow
there, and `walk_append_iff` says that the walks of the glued automaton are exactly the walks of
the left side that are followed by turns.

Concatenation is the special case in which neither side can take a second turn (`Turns.once`).
For that it is enough that no arrow leaves the accepting state of the left side, or that none
enters the start of the right side: then one of the two has only the empty round at the glued
state, and the rounds of the other belong to its own words. Where there are rounds on both
sides, they can alternate, and more is read than concatenations.

Main result: `reads_append`.
-/

namespace RegexAutomata

/-- A walk to a state that no arrow enters begins and ends there. -/
theorem Walk.unentered {arrows : List Arrow} {s t : Int} {symbols : List Char}
    (hstart : ∀ arrow ∈ arrows, arrow.target ≠ t) (walk : Walk arrows s symbols t) :
    symbols = [] ∧ s = t := by
  induction walk with
  | stay _ => exact ⟨rfl, rfl⟩
  | step hmem _ ih =>
    obtain ⟨-, rfl⟩ := ih hstart
    exact absurd rfl (hstart _ hmem)

namespace Automaton

variable {l r : Automaton} {s t : Int} {symbols rest : List Char}

/-- The left side is part of the appended automaton. -/
theorem walk_append_left (hl : Compact l) (r : Automaton) (walk : Walk l.arrows s symbols t) :
    Walk (l.append r).arrows s symbols t :=
  walk.mono fun _ h => (hl.mem_arrows_append r).mpr (.inl h)

/-- The right side begins in the last state of the left. -/
theorem walk_append_right (hl : Compact l) (hlast : l.accept = l.size - 1)
    (walk : Walk r.arrows s symbols t) :
    Walk (l.append r).arrows (s + l.accept) symbols (t + l.accept) := by
  refine (walk.shifted l.accept).mono fun _ h => (hl.mem_arrows_append r).mpr (.inr ?_)
  rw [← hlast]
  exact List.mem_map.mp h

/-- What a walk can go through from the glued state to the state `t` of the right side: either
side goes round and comes back to the glued state, any number of times, and at last the right
side goes to `t`. -/
inductive Turns (l r : Automaton) (t : Int) : List Char → Prop where
  | last {back : List Char} (walk : Walk r.arrows startState back t) : Turns l r t back
  | left {round rest : List Char} (walk : Walk l.arrows l.accept round l.accept)
      (more : Turns l r t rest) : Turns l r t (round ++ rest)
  | right {round rest : List Char} (walk : Walk r.arrows startState round startState)
      (more : Turns l r t rest) : Turns l r t (round ++ rest)

/-- Turns are walks of the appended automaton from the glued state. -/
theorem Turns.walk (hl : Compact l) (hlast : l.accept = l.size - 1) (turns : Turns l r t rest) :
    Walk (l.append r).arrows l.accept rest (t + l.accept) := by
  have hright : ∀ {t symbols}, Walk r.arrows startState symbols t →
      Walk (l.append r).arrows l.accept symbols (t + l.accept) := by
    intro t symbols walk
    have hwalk := walk_append_right hl hlast walk
    rwa [startState_add] at hwalk
  induction turns with
  | last walk => exact hright walk
  | left walk _ ih => exact (walk_append_left hl r walk).trans ih
  | right walk _ ih =>
    have hround := hright walk
    rw [startState_add] at hround
    exact hround.trans ih

/-- A walk to the right side is cut where it first comes to the glued state. In front of the cut
it is a walk of the side it begins in, and it may be that a walk that begins in the right side
never comes there. -/
theorem walk_append_split (hl : Compact l) (hlast : l.accept = l.size - 1) (hr : Compact r)
    (ht : 0 ≤ t) (walk : Walk (l.append r).arrows s symbols (t + l.accept)) :
    (s ≤ l.accept → ∃ front rest, Walk l.arrows s front l.accept ∧ Turns l r t rest ∧
      symbols = front ++ rest) ∧
    (l.accept ≤ s → Walk r.arrows (s - l.accept) symbols t ∨
      ∃ front rest, Walk r.arrows (s - l.accept) front startState ∧ Turns l r t rest ∧
        symbols = front ++ rest) := by
  generalize hend : t + l.accept = e at walk
  -- both halves at once, because each arrow may lead to the other side
  induction walk with
  | stay s =>
    subst hend
    rw [Int.add_sub_cancel]
    refine ⟨fun hs => ?_, fun _ => .inl (.stay t)⟩
    have hzero : t = startState := by
      show t = 0
      omega
    subst hzero
    rw [startState_add]
    exact ⟨[], [], .stay _, .last (.stay _), rfl⟩
  | @step s u e c symbols hmem rest ih =>
    obtain ⟨ihleft, ihright⟩ := ih hend
    rcases (hl.mem_arrows_append r).mp hmem with h | ⟨b, hb, heq⟩
    · -- an arrow of the left side: at the glued state it begins a round
      have hsource := hl.source_mem _ h
      have htarget := hl.target_mem _ h
      simp only at hsource htarget
      obtain ⟨front, more, hfront, hturns, rfl⟩ := ihleft (by omega)
      refine ⟨fun _ => ⟨c :: front, more, .step h hfront, hturns, rfl⟩, fun hs => .inr ?_⟩
      have hglued : s = l.accept := by omega
      subst hglued
      rw [Int.sub_self]
      exact ⟨[], c :: front ++ more, .stay _, .left (.step h hfront) hturns, rfl⟩
    · -- an arrow of the right side, which starts in the glued state or behind it
      have hsource := hr.source_mem b hb
      have htarget := hr.target_mem b hb
      rw [← hlast] at heq
      have harrow := Arrow.mem_of_shifted_eq hb heq
      obtain ⟨hbs, -, hbt⟩ := Arrow.mk.inj heq
      have hright : Walk r.arrows (s - l.accept) (c :: symbols) t ∨
          ∃ front rest, Walk r.arrows (s - l.accept) front startState ∧ Turns l r t rest ∧
            c :: symbols = front ++ rest := by
        rcases ihright (by omega) with hwalk | ⟨front, more, hfront, hturns, rfl⟩
        · exact .inl (.step harrow hwalk)
        · exact .inr ⟨c :: front, more, .step harrow hfront, hturns, rfl⟩
      refine ⟨fun hs => ?_, fun _ => hright⟩
      have hglued : s = l.accept := by omega
      subst hglued
      rw [Int.sub_self] at hright
      rcases hright with hwalk | ⟨front, more, hfront, hturns, heq⟩
      · exact ⟨[], c :: symbols, .stay _, .last hwalk, rfl⟩
      · refine ⟨[], c :: symbols, .stay _, ?_, rfl⟩
        rw [heq]
        exact .right hfront hturns

/-- **What gluing makes.** A walk of the appended automaton from its start to its accepting state
is a walk of the left side from start to end, followed by turns. -/
theorem walk_append_iff (hl : Compact l) (hlast : l.accept = l.size - 1) (hr : Compact r) :
    Walk (l.append r).arrows startState symbols (l.append r).accept ↔
      ∃ front rest, Walk l.arrows startState front l.accept ∧ Turns l r r.accept rest ∧
        symbols = front ++ rest := by
  have hstart : startState ≤ l.accept := hl.accept_mem.1
  rw [hl.accept_append, ← hlast]
  constructor
  · intro walk
    exact (walk_append_split hl hlast hr hr.accept_mem.1 walk).1 hstart
  · intro h
    obtain ⟨front, rest, hfront, hturns, rfl⟩ := h
    exact (walk_append_left hl r hfront).trans (hturns.walk hl hlast)

/-- Where no arrow leaves the accepting state of the left side, or none enters the start of the
right side, turns are one round of the left side and one walk of the right. -/
theorem Turns.once (hglue : (∀ arrow ∈ l.arrows, arrow.source ≠ l.accept) ∨
      (∀ arrow ∈ r.arrows, arrow.target ≠ startState)) (turns : Turns l r t rest) :
    ∃ round back, Walk l.arrows l.accept round l.accept ∧ Walk r.arrows startState back t ∧
      rest = round ++ back := by
  induction turns with
  | last walk => exact ⟨[], _, .stay _, walk, rfl⟩
  | left walk _ ih =>
    obtain ⟨round, back, hround, hback, rfl⟩ := ih
    exact ⟨_, back, walk.trans hround, hback, (List.append_assoc ..).symm⟩
  | right walk _ ih =>
    obtain ⟨round, back, hround, hback, rfl⟩ := ih
    -- a round of the right side in front of one of the left: one of them is empty
    rcases hglue with hexit | hentry
    · obtain ⟨rfl, -⟩ := hround.stuck hexit
      exact ⟨[], _, .stay _, walk.trans hback, rfl⟩
    · obtain ⟨rfl, -⟩ := walk.unentered hentry
      exact ⟨round, back, hround, hback, rfl⟩

/-- Whatever the arrows at the glued state are, all concatenations are read. -/
theorem Reads.append (hl : Compact l) (hlast : l.accept = l.size - 1) (hr : Compact r)
    {front back : List Char} (hfront : l.Reads front) (hback : r.Reads back) :
    (l.append r).Reads (front ++ back) := by
  obtain ⟨symbols, walk, rfl⟩ := hfront
  obtain ⟨more, walk', rfl⟩ := hback
  exact ⟨symbols ++ more, (walk_append_iff hl hlast hr).mpr ⟨symbols, more, walk, .last walk', rfl⟩,
    wordOf_append symbols more⟩

/-- **Concatenation.** An appended automaton reads what the left side reads followed by what
the right side reads. -/
theorem reads_append (hl : Compact l) (hlast : l.accept = l.size - 1) (hr : Compact r)
    (hglue : (∀ arrow ∈ l.arrows, arrow.source ≠ l.accept) ∨
      (∀ arrow ∈ r.arrows, arrow.target ≠ startState)) (word : List Char) :
    (l.append r).Reads word ↔
      ∃ front back, l.Reads front ∧ r.Reads back ∧ word = front ++ back := by
  constructor
  · intro h
    obtain ⟨symbols, walk, rfl⟩ := h
    obtain ⟨front, rest, hfront, hturns, rfl⟩ := (walk_append_iff hl hlast hr).mp walk
    obtain ⟨round, back, hround, hback, rfl⟩ := hturns.once hglue
    refine ⟨wordOf (front ++ round), wordOf back, ⟨_, hfront.trans hround, rfl⟩,
      ⟨back, hback, rfl⟩, ?_⟩
    rw [← List.append_assoc, wordOf_append]
  · intro h
    obtain ⟨front, back, hfront, hback, rfl⟩ := h
    exact hfront.append hl hlast hr hback

/-- With rounds on both sides of the glued state, `a*` and `b*` become `(a|b)*`. -/
example : (append ⟨[0], [⟨0, 'a', 0⟩], 0⟩ ⟨[0], [⟨0, 'b', 0⟩], 0⟩).Reads ['b', 'a'] :=
  ⟨['b', 'a'], .step (.tail _ (.head _)) (.single (.head _)), rfl⟩

end Automaton

end RegexAutomata
