import RegexAutomata.Automaton.Fragment

/-!
# The shape of constructed automata

The constructions renumber: they take the last listed state for the largest number, or the
count of states for the first number that is free. That is sound for automata whose states are
`0` to `n - 1` in order and whose arrows stay among them. `Compact` says so.

Gluing two automata together at one state needs more, because an arrow back into the start of
the right side, or out of the accepting state of the left one, would be taken over by the other
side. `IsFragment` asks for it: compact, at least two states, accepting in the last, no arrow
into the start and none out of the accepting state. `alternate` and `star` make fragments out of
any compact automata, `append` keeps fragments; so `IsFragment` is the invariant of everything
that is put together by the four constructions (`Constructed.isFragment`).

`append_assoc` says that `append` is associative on the nose: not only up to renumbering but
with equal states, equal arrows in equal order and equal accepting state.
-/

namespace RegexAutomata

theorem Arrow.shifted_shifted (arrow : Arrow) (m n : Int) :
    (arrow.shifted m).shifted n = arrow.shifted (m + n) := by
  unfold Arrow.shifted
  rw [Int.add_assoc, Int.add_assoc]

namespace Automaton

/-! ## Numbered states -/

@[simp] theorem size_numbered (n : Nat) : (numbered n).size = n := by
  rw [size, numbered, List.length_map, List.length_range]

theorem mem_states_numbered {n : Nat} {s : Int} : s ∈ (numbered n).states ↔ 0 ≤ s ∧ s < n := by
  rw [numbered, List.mem_map]
  constructor
  · intro h
    obtain ⟨k, hk, rfl⟩ := h
    have hlt := List.mem_range.mp hk
    simp only [Int.ofNat_eq_natCast]
    omega
  · intro h
    exact ⟨s.toNat, List.mem_range.mpr (by omega), Int.toNat_of_nonneg h.1⟩

theorem pairwise_numbered (n : Nat) : (numbered n).states.Pairwise (· < ·) := by
  rw [numbered, List.pairwise_map]
  exact List.pairwise_lt_range.imp Int.ofNat_lt.mpr

theorem getLastD_numbered (n : Nat) (d : Int) : (numbered (n + 1)).states.getLastD d = n := by
  simp only [numbered, List.range_succ, List.map_append, List.map_cons, List.map_nil,
    List.getLastD_concat]
  rfl

/-- The states `1` to `m`, renumbered from `n` on, continue the states `0` to `n`. -/
theorem numbered_append (n m : Nat) :
    (numbered (n + 1)).states ++ (numbered (m + 1)).states.tail.map (· + (n : Int))
      = (numbered (n + 1 + m)).states := by
  simp only [numbered, List.range_add, List.range_succ_eq_map (n := m), List.map_append,
    List.map_cons, List.tail_cons, List.map_map]
  congr 1
  apply List.map_congr_left
  intro k _
  show Int.ofNat (k + 1) + (n : Int) = Int.ofNat (n + 1 + k)
  simp only [Int.ofNat_eq_natCast]
  omega

/-! ## Compact automata -/

/-- The states are `0` to `n - 1` in order, there is one at least, and no arrow and no
acceptance lies outside them. -/
structure Compact (a : Automaton) : Prop where
  states_eq : a.states = (numbered a.size).states
  size_pos : 0 < a.size
  source_mem : ∀ arrow ∈ a.arrows, 0 ≤ arrow.source ∧ arrow.source < a.size
  target_mem : ∀ arrow ∈ a.arrows, 0 ≤ arrow.target ∧ arrow.target < a.size
  accept_mem : 0 ≤ a.accept ∧ a.accept < a.size

instance (a : Automaton) : Decidable (Compact a) :=
  decidable_of_iff
    (a.states = (numbered a.size).states ∧ 0 < a.size ∧
      (∀ arrow ∈ a.arrows, 0 ≤ arrow.source ∧ arrow.source < a.size) ∧
      (∀ arrow ∈ a.arrows, 0 ≤ arrow.target ∧ arrow.target < a.size) ∧
      0 ≤ a.accept ∧ a.accept < a.size)
    ⟨fun ⟨hstates, hsize, hsource, htarget, haccept⟩ =>
      ⟨hstates, hsize, hsource, htarget, haccept⟩,
    fun h => ⟨h.states_eq, h.size_pos, h.source_mem, h.target_mem, h.accept_mem⟩⟩

namespace Compact

variable {a l r : Automaton}

theorem states_ne_nil (ha : Compact a) : a.states ≠ [] :=
  List.ne_nil_of_length_pos ha.size_pos

theorem mem_states_iff (ha : Compact a) {s : Int} : s ∈ a.states ↔ 0 ≤ s ∧ s < a.size := by
  rw [ha.states_eq, mem_states_numbered]

theorem pairwise_states (ha : Compact a) : a.states.Pairwise (· < ·) := by
  rw [ha.states_eq]
  exact pairwise_numbered a.size

theorem start_mem_states (ha : Compact a) : startState ∈ a.states := by
  have hpos := ha.size_pos
  exact ha.mem_states_iff.mpr ⟨Int.le_refl 0, by simp only [startState]; omega⟩

theorem accept_mem_states (ha : Compact a) : a.accept ∈ a.states :=
  ha.mem_states_iff.mpr ha.accept_mem

theorem getLastD_states (ha : Compact a) (d : Int) : a.states.getLastD d = a.size - 1 := by
  have hpos := ha.size_pos
  rw [ha.states_eq, show a.size = a.size - 1 + 1 from by omega, getLastD_numbered]
  omega

theorem states_append (hl : Compact l) (hr : Compact r) :
    (l.append r).states = (numbered (l.size + (r.size - 1))).states := by
  have hposl := hl.size_pos
  have hposr := hr.size_pos
  show l.states ++ r.states.tail.map (· + l.states.getLastD startState) = _
  -- `numbered_append` speaks of successors, so that both sizes are written as such
  rw [hl.getLastD_states, hl.states_eq, hr.states_eq]
  have key := numbered_append (l.size - 1) (r.size - 1)
  rw [show l.size - 1 + 1 = l.size from by omega, show r.size - 1 + 1 = r.size from by omega,
    show ((l.size - 1 : Nat) : Int) = (l.size : Int) - 1 from by omega] at key
  exact key

theorem size_append (hl : Compact l) (hr : Compact r) :
    (l.append r).size = l.size + (r.size - 1) := by
  rw [size, hl.states_append hr]
  exact size_numbered _

/-- An arrow of an appended automaton is one of the left side, or one of the right side moved
behind the last state of the left. -/
theorem mem_arrows_append (hl : Compact l) (r : Automaton) {arrow : Arrow} :
    arrow ∈ (l.append r).arrows ↔
      arrow ∈ l.arrows ∨ ∃ b ∈ r.arrows, b.shifted (l.size - 1) = arrow := by
  show arrow ∈ l.arrows ++ r.arrows.map (·.shifted (l.states.getLastD startState)) ↔ _
  rw [hl.getLastD_states, List.mem_append, List.mem_map]

theorem accept_append (hl : Compact l) (r : Automaton) :
    (l.append r).accept = r.accept + (l.size - 1) := by
  show r.accept + l.states.getLastD startState = _
  rw [hl.getLastD_states]

theorem append (hl : Compact l) (hr : Compact r) : Compact (l.append r) := by
  have hposl := hl.size_pos
  have hposr := hr.size_pos
  have hsize := hl.size_append hr
  refine ⟨?_, ?_, ?_, ?_, ?_⟩
  · rw [hsize]
    exact hl.states_append hr
  · omega
  · intro arrow hmem
    rcases (hl.mem_arrows_append r).mp hmem with h | ⟨b, hb, rfl⟩
    · have := hl.source_mem arrow h
      omega
    · have := hr.source_mem b hb
      simp only [Arrow.shifted]
      omega
  · intro arrow hmem
    rcases (hl.mem_arrows_append r).mp hmem with h | ⟨b, hb, rfl⟩
    · have := hl.target_mem arrow h
      omega
    · have := hr.target_mem b hb
      simp only [Arrow.shifted]
      omega
  · have := hr.accept_mem
    rw [hl.accept_append]
    omega

end Compact

/-! ## Fragments -/

/-- What every automaton is that is made by the four constructions: compact, with a start that
is never entered and another state, the last, that accepts and is never left. -/
structure IsFragment (a : Automaton) : Prop extends Compact a where
  two_le_size : 2 ≤ a.size
  accept_eq : a.accept = a.size - 1
  no_entry : ∀ arrow ∈ a.arrows, arrow.target ≠ startState
  no_exit : ∀ arrow ∈ a.arrows, arrow.source ≠ a.accept

/-- The bounds of a fragment at a glance: arrows start below the last state and end above the
first. -/
theorem isFragment_of_bounds {a : Automaton} {n : Nat} (hstates : a.states = (numbered n).states)
    (hn : 2 ≤ n) (haccept : a.accept = n - 1)
    (hbounds : ∀ arrow ∈ a.arrows,
      0 ≤ arrow.source ∧ arrow.source < n - 1 ∧ 1 ≤ arrow.target ∧ arrow.target < n) :
    IsFragment a := by
  have hsize : a.size = n := by
    rw [size, hstates]
    exact size_numbered n
  subst hsize
  refine ⟨⟨hstates, by omega, ?_, ?_, by omega⟩, hn, haccept, ?_, ?_⟩
  · intro arrow hmem
    have := hbounds arrow hmem
    omega
  · intro arrow hmem
    have := hbounds arrow hmem
    omega
  · intro arrow hmem
    have := hbounds arrow hmem
    show arrow.target ≠ 0
    omega
  · intro arrow hmem
    have := hbounds arrow hmem
    omega

theorem isFragment_single (c : Char) : IsFragment (single c) := by
  refine isFragment_of_bounds (n := 2) rfl (Nat.le_refl 2) rfl ?_
  intro arrow hmem
  rw [List.mem_singleton.mp hmem]
  simp only
  omega

theorem isFragment_append {l r : Automaton} (hl : IsFragment l) (hr : IsFragment r) :
    IsFragment (l.append r) := by
  have hl2 := hl.two_le_size
  have hr2 := hr.two_le_size
  refine isFragment_of_bounds (hl.states_append hr.toCompact) (by omega) ?_ ?_
  · have := hr.accept_eq
    rw [hl.accept_append]
    omega
  · -- of either side: no arrow goes out of its last state or into its first
    intro arrow hmem
    rcases (hl.mem_arrows_append r).mp hmem with h | ⟨b, hb, rfl⟩
    · have hs := hl.source_mem arrow h
      have ht := hl.target_mem arrow h
      have hentry : arrow.target ≠ 0 := hl.no_entry arrow h
      omega
    · have hs := hr.source_mem b hb
      have ht := hr.target_mem b hb
      have hexit := hr.no_exit b hb
      have hacc := hr.accept_eq
      simp only [Arrow.shifted]
      omega

/-- The arrows of a choice: two out of the new start, two into the new accepting state, and the
arrows of both sides, each moved to its place. -/
theorem mem_arrows_alternate (l r : Automaton) {arrow : Arrow} :
    arrow ∈ (l.alternate r).arrows ↔
      arrow = ⟨0, epsilon, 1⟩ ∨ (∃ b ∈ l.arrows, b.shifted 1 = arrow) ∨
      arrow = ⟨l.accept + 1, epsilon, l.size + r.size + 1⟩ ∨
      arrow = ⟨0, epsilon, l.size + 1⟩ ∨ (∃ b ∈ r.arrows, b.shifted (l.size + 1) = arrow) ∨
      arrow = ⟨r.accept + (l.size + 1), epsilon, l.size + r.size + 1⟩ := by
  simp only [alternate, List.mem_append, List.mem_map, List.mem_singleton, or_assoc]

theorem accept_alternate (l r : Automaton) :
    (l.alternate r).accept = l.size + r.size + 1 := rfl

theorem isFragment_alternate {l r : Automaton} (hl : Compact l) (hr : Compact r) :
    IsFragment (l.alternate r) := by
  have hla := hl.accept_mem
  have hra := hr.accept_mem
  refine isFragment_of_bounds (n := l.size + r.size + 2) rfl (by omega) ?_ ?_
  · rw [accept_alternate]
    omega
  · intro arrow hmem
    rcases (mem_arrows_alternate l r).mp hmem with
      rfl | ⟨b, hb, rfl⟩ | rfl | rfl | ⟨b, hb, rfl⟩ | rfl
    · simp only
      omega
    · have hs := hl.source_mem b hb
      have ht := hl.target_mem b hb
      simp only [Arrow.shifted]
      omega
    · simp only
      omega
    · simp only
      omega
    · have hs := hr.source_mem b hb
      have ht := hr.target_mem b hb
      simp only [Arrow.shifted]
      omega
    · simp only
      omega

/-- The arrows of a repetition: into the automaton, its own arrows moved by one, out of it, back
to its start, and past it. -/
theorem mem_arrows_star (a : Automaton) {arrow : Arrow} :
    arrow ∈ a.star.arrows ↔
      arrow = ⟨0, epsilon, 1⟩ ∨ (∃ b ∈ a.arrows, b.shifted 1 = arrow) ∨
      arrow = ⟨a.accept + 1, epsilon, a.size + 1⟩ ∨ arrow = ⟨a.accept + 1, epsilon, 1⟩ ∨
      arrow = ⟨0, epsilon, a.size + 1⟩ := by
  simp only [star, List.mem_append, List.mem_map, List.mem_cons,
    List.not_mem_nil, or_false, or_assoc]

theorem accept_star (a : Automaton) : a.star.accept = a.size + 1 := rfl

theorem isFragment_star {a : Automaton} (ha : Compact a) : IsFragment a.star := by
  have hacc := ha.accept_mem
  refine isFragment_of_bounds (n := a.size + 2) rfl (by omega) ?_ ?_
  · rw [accept_star]
    omega
  · intro arrow hmem
    rcases (mem_arrows_star a).mp hmem with rfl | ⟨b, hb, rfl⟩ | rfl | rfl | rfl
    · simp only
      omega
    · have hs := ha.source_mem b hb
      have ht := ha.target_mem b hb
      simp only [Arrow.shifted]
      omega
    · simp only
      omega
    · simp only
      omega
    · simp only
      omega

/-- The automata that the four constructions make out of nothing else, in any nesting. -/
inductive Constructed : Automaton → Prop where
  | single (c : Char) : Constructed (.single c)
  | append {l r : Automaton} (hl : Constructed l) (hr : Constructed r) : Constructed (l.append r)
  | alternate {l r : Automaton} (hl : Constructed l) (hr : Constructed r) :
      Constructed (l.alternate r)
  | star {a : Automaton} (ha : Constructed a) : Constructed a.star

/-- **Whatever is constructed is a fragment.** -/
theorem Constructed.isFragment {a : Automaton} (h : Constructed a) : IsFragment a := by
  induction h with
  | single c => exact isFragment_single c
  | append _ _ ihl ihr => exact isFragment_append ihl ihr
  | alternate _ _ ihl ihr => exact isFragment_alternate ihl.toCompact ihr.toCompact
  | star _ ih => exact isFragment_star ih.toCompact

/-! ## Appending is associative -/

/-- Where the second state of the right side is a last one, too: the last state of an appended
automaton. -/
theorem getLastD_append {l r : Automaton} (hr : 2 ≤ r.size) :
    (l.append r).states.getLastD startState
      = r.states.getLastD startState + l.states.getLastD startState := by
  show (l.states ++ r.states.tail.map (· + l.states.getLastD startState)).getLastD startState = _
  generalize l.states.getLastD startState = offset
  -- with a second state the dropped start is not the last one
  match hstates : r.states, hr with
  | [], hr => simp [size, hstates] at hr
  | [_], hr => simp [size, hstates] at hr
  | first :: second :: others, _ =>
    rw [List.tail_cons, List.getLastD_eq_getLast?, List.getLastD_eq_getLast?,
      List.getLast?_append, List.getLast?_map, List.getLast?_cons_cons,
      List.getLast?_eq_some_getLast (List.cons_ne_nil second others)]
    rfl

theorem states_ne_nil_of_two_le {a : Automaton} (h : 2 ≤ a.size) : a.states ≠ [] :=
  List.ne_nil_of_length_pos (Nat.lt_of_lt_of_le Nat.zero_lt_two h)

/-- **Appending is associative**, state by state and arrow by arrow, as long as the middle has
a state besides its start. -/
theorem append_assoc {l m : Automaton} (r : Automaton) (hm : 2 ≤ m.size) :
    (l.append m).append r = l.append (m.append r) := by
  have hlast := getLastD_append (l := l) hm
  have hne := states_ne_nil_of_two_le hm
  unfold append at hlast ⊢
  rw [hlast]
  generalize l.states.getLastD startState = i
  generalize m.states.getLastD startState = j
  unfold glue
  simp only [Automaton.mk.injEq]
  refine ⟨?_, ?_, ?_⟩
  · rw [List.tail_append_of_ne_nil hne, List.map_append, List.map_map, List.append_assoc]
    congr 3
    funext s
    exact (Int.add_assoc s j i).symm
  · rw [List.map_append, List.map_map, List.append_assoc]
    congr 3
    funext arrow
    exact (Arrow.shifted_shifted arrow j i).symm
  · exact (Int.add_assoc r.accept j i).symm

end Automaton

end RegexAutomata
