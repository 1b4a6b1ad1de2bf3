import RegexAutomata.Proofs.Automaton.Gluing

/-!
# Constructed automata are trim

Every state of a constructed automaton lies on a way from the start to the accepting state: it
can be reached, and the accepting state can be reached from it. `Trim` says both, because
neither can be carried through the constructions alone. What stands on the right of `append` is
reached only by going through the left side to its end, and what stands on the left comes to
the end only through the right side.

The states of a construction are those of its parts, each in its region, and the new start and
accepting state (`mem_states_append` and the like). Ways inside a part are moved into its
region, and the new arrows lead into the region and out of it.

`mem_reachable_iff` connects this with what an observer finds: all states, and no others.
-/

namespace RegexAutomata

/-- Arrows lead from `s` to `t`, whatever their symbols. -/
def Leads (arrows : List Arrow) (s t : Int) : Prop :=
  ∃ symbols, Walk arrows s symbols t

namespace Leads

variable {arrows : List Arrow} {s t u : Int}

theorem refl (arrows : List Arrow) (s : Int) : Leads arrows s s :=
  ⟨[], .stay s⟩

theorem trans (first : Leads arrows s u) (second : Leads arrows u t) : Leads arrows s t := by
  obtain ⟨symbols, walk⟩ := first
  obtain ⟨more, walk'⟩ := second
  exact ⟨symbols ++ more, walk.trans walk'⟩

theorem of_arrow {c : Char} (h : ⟨s, c, t⟩ ∈ arrows) : Leads arrows s t :=
  ⟨[c], .single h⟩

/-- A chain of arrows, taken for edges without symbols. -/
theorem iff_chain : Leads arrows s t ↔
    Relation.ReflTransGen (Linked (arrows.map fun arrow => (arrow.source, arrow.target))) s t := by
  constructor
  · intro h
    obtain ⟨symbols, walk⟩ := h
    induction walk with
    | stay _ => exact .refl
    | step hmem _ ih => exact ih.head (List.mem_map.mpr ⟨_, hmem, rfl⟩)
  · intro h
    induction h using Relation.ReflTransGen.head_induction_on with
    | refl => exact .refl arrows t
    | head hlink _ ih =>
      obtain ⟨arrow, hmem, heq⟩ := List.mem_map.mp hlink
      obtain ⟨rfl, rfl⟩ := Prod.mk.inj heq
      exact (of_arrow (c := arrow.symbol) hmem).trans ih

/-- What an exploration from one state along the arrows finds, in whatever order. -/
theorem mem_reach_iff {order : Search.Order} :
    t ∈ reach order (arrows.map fun arrow => (arrow.source, arrow.target)) [s] ↔
      Leads arrows s t := by
  rw [RegexAutomata.mem_reach_iff, iff_chain]
  constructor
  · intro hchain
    obtain ⟨r, hr, hchain⟩ := hchain
    rw [List.mem_singleton.mp hr] at hchain
    exact hchain
  · intro hchain
    exact ⟨s, List.mem_singleton_self _, hchain⟩

end Leads

/-- What an observer of an automaton with states finds. -/
theorem Observer.mem_reachable_iff (o : Observer) (h : o.live.isEmpty = false) {s : Int} :
    s ∈ o.reachable ↔ Leads o.live.arrows startState s := by
  rw [reachable, h, if_neg Bool.false_ne_true, Leads.mem_reach_iff]

namespace Automaton

/-- The arrows of a compact automaton do not lead out of its states. -/
theorem Compact.mem_states_of_leads {a : Automaton} (ha : Compact a) {s t : Int}
    (h : Leads a.arrows s t) (hs : s ∈ a.states) : t ∈ a.states := by
  obtain ⟨symbols, walk⟩ := h
  induction walk with
  | stay _ => exact hs
  | step hmem _ ih => exact ih (ha.mem_states_iff.mpr (ha.target_mem _ hmem))

/-- No state is useless: each is on a way from the start to the accepting state. -/
structure Trim (a : Automaton) : Prop where
  accessible : ∀ s ∈ a.states, Leads a.arrows startState s
  productive : ∀ s ∈ a.states, Leads a.arrows s a.accept

theorem trim_single (c : Char) : Trim (single c) := by
  have hway : Leads (single c).arrows 0 1 := .of_arrow (List.mem_singleton_self _)
  refine ⟨fun s hs => ?_, fun s hs => ?_⟩
  · rcases List.mem_cons.mp hs with rfl | hs
    · exact .refl _ _
    · rw [List.mem_singleton.mp hs]
      exact hway
  · rcases List.mem_cons.mp hs with rfl | hs
    · exact hway
    · rw [List.mem_singleton.mp hs]
      exact .refl _ _

/-! ## One automaton behind the other -/

section Append

variable {l r : Automaton}

/-- The last state of the left side belongs to both. -/
theorem mem_states_append (hl : Compact l) (hr : Compact r) {s : Int} :
    s ∈ (l.append r).states ↔ s ∈ l.states ∨ s - (l.size - 1) ∈ r.states := by
  have hsizel := hl.size_pos
  have hsizer := hr.size_pos
  rw [(hl.append hr).mem_states_iff, hl.mem_states_iff, hr.mem_states_iff, hl.size_append hr]
  omega

theorem trim_append (hl : Compact l) (hlast : l.accept = l.size - 1) (hr : Compact r)
    (tl : Trim l) (tr : Trim r) : Trim (l.append r) := by
  have hleft : ∀ {s t}, Leads l.arrows s t → Leads (l.append r).arrows s t :=
    fun h => h.imp fun _ => walk_append_left hl r
  have hright : ∀ {s t}, Leads r.arrows s t →
      Leads (l.append r).arrows (s + l.accept) (t + l.accept) :=
    fun h => h.imp fun _ => walk_append_right hl hlast
  have haccept : (l.append r).accept = r.accept + l.accept := by
    rw [hl.accept_append, hlast]
  -- the whole of either side, from its start to its accepting state
  have hfront := hleft (tl.accessible _ hl.accept_mem_states)
  have hback := hright (tr.accessible _ hr.accept_mem_states)
  rw [startState_add] at hback
  rw [← haccept] at hback
  refine ⟨fun s hs => ?_, fun s hs => ?_⟩
  · rcases (mem_states_append hl hr).mp hs with h | h
    · exact hleft (tl.accessible s h)
    · have hway := hright (tr.accessible _ h)
      rw [startState_add, hlast, Int.sub_add_cancel, ← hlast] at hway
      exact hfront.trans hway
  · rcases (mem_states_append hl hr).mp hs with h | h
    · exact (hleft (tl.productive s h)).trans hback
    · have hway := hright (tr.productive _ h)
      rw [← haccept, hlast, Int.sub_add_cancel] at hway
      exact hway

end Append

/-! ## A choice of two automata -/

section Alternate

variable {l r : Automaton}

theorem mem_states_alternate (hl : Compact l) (hr : Compact r) {s : Int} :
    s ∈ (l.alternate r).states ↔
      s = startState ∨ s - 1 ∈ l.states ∨ s - (l.size + 1) ∈ r.states ∨
        s = (l.alternate r).accept := by
  have hstates : (l.alternate r).states = (numbered (l.size + r.size + 2)).states := rfl
  rw [hstates, mem_states_numbered, hl.mem_states_iff, hr.mem_states_iff, accept_alternate,
    startState]
  omega

theorem trim_alternate (hl : Compact l) (hr : Compact r) (tl : Trim l) (tr : Trim r) :
    Trim (l.alternate r) := by
  obtain ⟨hleft, hleft', hright, hright'⟩ := new_mem_alternate l r
  have hinleft : ∀ {s t}, Leads l.arrows s t → Leads (l.alternate r).arrows (s + 1) (t + 1) :=
    fun h => h.imp fun _ => walk_alternate_left r
  have hinright : ∀ {s t}, Leads r.arrows s t →
      Leads (l.alternate r).arrows (s + (l.size + 1)) (t + (l.size + 1)) :=
    fun h => h.imp fun _ => walk_alternate_right l
  rw [← startState_add (l.size + 1)] at hright
  -- through the left side, from the start to the accepting state
  have hthrough : Leads (l.alternate r).arrows startState (l.alternate r).accept :=
    ((Leads.of_arrow hleft).trans (hinleft (tl.accessible _ hl.accept_mem_states))).trans
      (.of_arrow hleft')
  refine ⟨fun s hs => ?_, fun s hs => ?_⟩
  · rcases (mem_states_alternate hl hr).mp hs with rfl | h | h | rfl
    · exact .refl _ _
    · have hway := hinleft (tl.accessible _ h)
      rw [Int.sub_add_cancel] at hway
      exact (Leads.of_arrow hleft).trans hway
    · have hway := hinright (tr.accessible _ h)
      rw [Int.sub_add_cancel] at hway
      exact (Leads.of_arrow hright).trans hway
    · exact hthrough
  · rcases (mem_states_alternate hl hr).mp hs with rfl | h | h | rfl
    · exact hthrough
    · have hway := hinleft (tl.productive _ h)
      rw [Int.sub_add_cancel] at hway
      exact hway.trans (.of_arrow hleft')
    · have hway := hinright (tr.productive _ h)
      rw [Int.sub_add_cancel] at hway
      exact hway.trans (.of_arrow hright')
    · exact .refl _ _

end Alternate

/-! ## Repetition -/

section Star

variable {a : Automaton}

theorem mem_states_star (ha : Compact a) {s : Int} :
    s ∈ a.star.states ↔ s = startState ∨ s - 1 ∈ a.states ∨ s = a.star.accept := by
  have hstates : a.star.states = (numbered (a.size + 2)).states := rfl
  rw [hstates, mem_states_numbered, ha.mem_states_iff, accept_star, startState]
  omega

theorem trim_star (ha : Compact a) (ta : Trim a) : Trim a.star := by
  obtain ⟨hin, hout, -, hpast⟩ := new_mem_star a
  have hinside : ∀ {s t}, Leads a.arrows s t → Leads a.star.arrows (s + 1) (t + 1) :=
    fun h => h.imp fun _ => walk_star_inside
  refine ⟨fun s hs => ?_, fun s hs => ?_⟩
  · rcases (mem_states_star ha).mp hs with rfl | h | rfl
    · exact .refl _ _
    · have hway := hinside (ta.accessible _ h)
      rw [Int.sub_add_cancel] at hway
      exact (Leads.of_arrow hin).trans hway
    · exact .of_arrow hpast
  · rcases (mem_states_star ha).mp hs with rfl | h | rfl
    · exact .of_arrow hpast
    · have hway := hinside (ta.productive _ h)
      rw [Int.sub_add_cancel] at hway
      exact hway.trans (.of_arrow hout)
    · exact .refl _ _

end Star

/-- **Constructed automata are trim**, however their parts are nested. -/
theorem Constructed.trim {a : Automaton} (h : Constructed a) : Trim a := by
  -- that both parts are fragments is needed at every level, and known from the construction
  induction h with
  | single c => exact trim_single c
  | append hl hr ihl ihr =>
    have hfragment := hl.isFragment
    exact trim_append hfragment.toCompact hfragment.accept_eq hr.isFragment.toCompact ihl ihr
  | alternate hl hr ihl ihr =>
    exact trim_alternate hl.isFragment.toCompact hr.isFragment.toCompact ihl ihr
  | star ha ih => exact trim_star ha.isFragment.toCompact ih

end Automaton

end RegexAutomata
