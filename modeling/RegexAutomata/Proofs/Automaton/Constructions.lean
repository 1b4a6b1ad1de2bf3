import RegexAutomata.Proofs.Automaton.Acceptance
import RegexAutomata.Proofs.Automaton.Shape

/-!
# The words that constructed automata read

What the constructions do to the words: a single symbol reads itself, `alternate` reads what
either side reads, and `star` reads any number of words in a row (`reads_single`,
`reads_alternate`, `reads_star`). `append`, which adds no arrow, has a module of its own.

In a choice and in a repetition the given automata lie side by side as regions of one graph. So
each result has an easy half, where walks of the parts are moved into their regions
(`walk_alternate_left` and the like) and put together, and a half that takes a walk of the whole
apart. The second half rests on what arrows can do at the border of a region: a walk that leaves
its region once does so by a known arrow (`Walk.exists_exit`), and one that comes back to the
start of its region begins a new round there (`star_rounds`).
-/

namespace RegexAutomata

/-- An arrow that was moved by `n` is found where it comes from. -/
theorem Arrow.mem_of_shifted_eq {arrows : List Arrow} {b : Arrow} {s t n : Int} {c : Char}
    (hb : b ∈ arrows) (heq : b.shifted n = ⟨s, c, t⟩) : ⟨s - n, c, t - n⟩ ∈ arrows := by
  obtain ⟨hsource, hsymbol, htarget⟩ := Arrow.mk.inj heq
  rw [← hsource, ← hsymbol, ← htarget, Int.add_sub_cancel, Int.add_sub_cancel]
  exact hb

namespace Walk

variable {arrows others : List Arrow} {s t : Int} {symbols : List Char}

theorem shifted (walk : Walk arrows s symbols t) (n : Int) :
    Walk (arrows.map (·.shifted n)) (s + n) symbols (t + n) := by
  induction walk with
  | stay s => exact .stay (s + n)
  | step hmem _ ih => exact .step (List.mem_map.mpr ⟨_, hmem, rfl⟩) ih

/-- From a state without arrows out of it a walk leads nowhere else. -/
theorem stuck (hend : ∀ arrow ∈ arrows, arrow.source ≠ s) (walk : Walk arrows s symbols t) :
    symbols = [] ∧ t = s := by
  cases walk with
  | stay _ => exact ⟨rfl, rfl⟩
  | step hmem _ => exact absurd rfl (hend _ hmem)

/-- A walk out of a region from which only one arrow leads away, to a state where every walk
ends, is a walk of the automaton that fills the region, and that arrow at last. -/
theorem exists_exit {n out : Int} {P : Int → Prop}
    (hin : ∀ arrow ∈ arrows, P arrow.source →
      (P arrow.target ∧ ∃ b ∈ others, b.shifted n = arrow) ∨ arrow = ⟨out, epsilon, t⟩)
    (hend : ∀ arrow ∈ arrows, arrow.source ≠ t) (ht : ¬ P t)
    (walk : Walk arrows s symbols t) (hs : P s) :
    ∃ inside, Walk others (s - n) inside (out - n) ∧ symbols = inside ++ [epsilon] := by
  induction walk with
  | stay _ => exact absurd hs ht
  | @step s u t c symbols hmem rest ih =>
    rcases hin _ hmem hs with ⟨hu, b, hb, heq⟩ | heq
    · -- the walk stays in the region
      obtain ⟨inside, hwalk, rfl⟩ := ih hin hend ht hu
      exact ⟨c :: inside, .step (Arrow.mem_of_shifted_eq hb heq) hwalk, rfl⟩
    · -- the way out, behind which nothing more can come
      obtain ⟨rfl, rfl, rfl⟩ := Arrow.mk.inj heq
      obtain ⟨rfl, -⟩ := rest.stuck hend
      exact ⟨[], .stay _, rfl⟩

end Walk

namespace Automaton

/-! ## A single symbol -/

theorem reads_single (c : Char) (word : List Char) :
    (single c).Reads word ↔ word = if c = epsilon then [] else [c] := by
  have hword : wordOf [c] = if c = epsilon then [] else [c] := by
    by_cases hc : c = epsilon
    · rw [if_pos hc, hc]
      rfl
    · rw [if_neg hc, wordOf_cons_letter hc]
      rfl
  rw [← hword]
  constructor
  · intro h
    obtain ⟨symbols, walk, rfl⟩ := h
    change Walk [⟨0, c, 1⟩] 0 symbols 1 at walk
    cases walk with
    | step hmem rest =>
      obtain ⟨-, rfl, rfl⟩ := Arrow.mk.inj (List.mem_singleton.mp hmem)
      obtain ⟨rfl, -⟩ := rest.stuck (by simp)
      rfl
  · intro h
    subst h
    exact ⟨[c], .single (List.mem_singleton_self _), rfl⟩

/-! ## A choice of two automata -/

section Alternate

variable {l r : Automaton}

/-- The four new arrows: into either side, and out of it. -/
theorem new_mem_alternate (l r : Automaton) :
    ⟨startState, epsilon, 1⟩ ∈ (l.alternate r).arrows ∧
      ⟨l.accept + 1, epsilon, (l.alternate r).accept⟩ ∈ (l.alternate r).arrows ∧
      ⟨startState, epsilon, l.size + 1⟩ ∈ (l.alternate r).arrows ∧
      ⟨r.accept + (l.size + 1), epsilon, (l.alternate r).accept⟩ ∈ (l.alternate r).arrows :=
  ⟨(mem_arrows_alternate l r).mpr (.inl rfl),
    (mem_arrows_alternate l r).mpr (.inr (.inr (.inl rfl))),
    (mem_arrows_alternate l r).mpr (.inr (.inr (.inr (.inl rfl)))),
    (mem_arrows_alternate l r).mpr (.inr (.inr (.inr (.inr (.inr rfl)))))⟩

/-- The left side is found one state on. -/
theorem walk_alternate_left (r : Automaton) {s t : Int} {symbols : List Char}
    (walk : Walk l.arrows s symbols t) : Walk (l.alternate r).arrows (s + 1) symbols (t + 1) :=
  (walk.shifted 1).mono fun _ h =>
    (mem_arrows_alternate l r).mpr (.inr (.inl (List.mem_map.mp h)))

/-- The right side is found behind the states of the left. -/
theorem walk_alternate_right (l : Automaton) {s t : Int} {symbols : List Char}
    (walk : Walk r.arrows s symbols t) :
    Walk (l.alternate r).arrows (s + (l.size + 1)) symbols (t + (l.size + 1)) :=
  (walk.shifted (l.size + 1)).mono fun _ h =>
    (mem_arrows_alternate l r).mpr (.inr (.inr (.inr (.inr (.inl (List.mem_map.mp h))))))

/-- In the region of the left side, the states `1` to `l.size`, there are its own arrows and the
one to the new accepting state. -/
theorem alternate_left (hl : Compact l) (hr : Compact r) {arrow : Arrow}
    (hmem : arrow ∈ (l.alternate r).arrows)
    (hsource : 1 ≤ arrow.source ∧ arrow.source ≤ l.size) :
    ((1 ≤ arrow.target ∧ arrow.target ≤ l.size) ∧ ∃ b ∈ l.arrows, b.shifted 1 = arrow) ∨
      arrow = ⟨l.accept + 1, epsilon, l.size + r.size + 1⟩ := by
  have hracc := hr.accept_mem
  rcases (mem_arrows_alternate l r).mp hmem with
    rfl | ⟨b, hb, rfl⟩ | heq | rfl | ⟨b, hb, rfl⟩ | rfl
  · simp only at hsource
    omega
  · have ht := hl.target_mem b hb
    exact .inl ⟨by simp only [Arrow.shifted]; omega, b, hb, rfl⟩
  · exact .inr heq
  · simp only at hsource
    omega
  · have hs := hr.source_mem b hb
    simp only [Arrow.shifted] at hsource
    omega
  · simp only at hsource
    omega

/-- In the region of the right side, the states from `l.size + 1` to `l.size + r.size`, there
are its own arrows and the one to the new accepting state. -/
theorem alternate_right (hl : Compact l) (hr : Compact r) {arrow : Arrow}
    (hmem : arrow ∈ (l.alternate r).arrows)
    (hsource : l.size + 1 ≤ arrow.source ∧ arrow.source ≤ l.size + r.size) :
    ((l.size + 1 ≤ arrow.target ∧ arrow.target ≤ l.size + r.size) ∧
        ∃ b ∈ r.arrows, b.shifted (l.size + 1) = arrow) ∨
      arrow = ⟨r.accept + (l.size + 1), epsilon, l.size + r.size + 1⟩ := by
  have hlacc := hl.accept_mem
  rcases (mem_arrows_alternate l r).mp hmem with
    rfl | ⟨b, hb, rfl⟩ | rfl | rfl | ⟨b, hb, rfl⟩ | heq
  · simp only at hsource
    omega
  · have hs := hl.source_mem b hb
    simp only [Arrow.shifted] at hsource
    omega
  · simp only at hsource
    omega
  · simp only at hsource
    omega
  · have ht := hr.target_mem b hb
    exact .inl ⟨by simp only [Arrow.shifted]; omega, b, hb, rfl⟩
  · exact .inr heq

/-- Out of the new start there are only the arrows into the two regions. -/
theorem alternate_start (hl : Compact l) (hr : Compact r) {arrow : Arrow}
    (hmem : arrow ∈ (l.alternate r).arrows) (hsource : arrow.source = startState) :
    arrow = ⟨0, epsilon, 1⟩ ∨ arrow = ⟨0, epsilon, l.size + 1⟩ := by
  have hlacc := hl.accept_mem
  have hracc := hr.accept_mem
  change arrow.source = 0 at hsource
  rcases (mem_arrows_alternate l r).mp hmem with
    heq | ⟨b, hb, rfl⟩ | rfl | heq | ⟨b, hb, rfl⟩ | rfl
  · exact .inl heq
  · have hs := hl.source_mem b hb
    simp only [Arrow.shifted] at hsource
    omega
  · simp only at hsource
    omega
  · exact .inr heq
  · have hs := hr.source_mem b hb
    simp only [Arrow.shifted] at hsource
    omega
  · simp only at hsource
    omega

/-- **Choice.** The alternative of two automata reads what either of them reads. -/
theorem reads_alternate (hl : Compact l) (hr : Compact r) (word : List Char) :
    (l.alternate r).Reads word ↔ l.Reads word ∨ r.Reads word := by
  have hend := (isFragment_alternate hl hr).no_exit
  have hsizel := hl.size_pos
  have hsizer := hr.size_pos
  rw [accept_alternate] at hend
  constructor
  · intro h
    obtain ⟨symbols, walk, rfl⟩ := h
    rw [accept_alternate] at walk
    generalize hstart : startState = s at walk
    cases walk with
    | stay _ =>
      change (0 : Int) = _ at hstart
      omega
    | step hmem rest =>
      rcases alternate_start hl hr hmem hstart.symm with heq | heq <;>
        obtain ⟨-, rfl, rfl⟩ := Arrow.mk.inj heq
      · obtain ⟨inside, hwalk, rfl⟩ := rest.exists_exit (P := fun s => 1 ≤ s ∧ s ≤ l.size)
          (fun _ hmem hsource => alternate_left hl hr hmem hsource) hend (by omega) (by omega)
        rw [Int.sub_self, Int.add_sub_cancel] at hwalk
        refine .inl ⟨inside, hwalk, ?_⟩
        rw [wordOf_cons_epsilon, wordOf_concat_epsilon]
      · obtain ⟨inside, hwalk, rfl⟩ := rest.exists_exit
          (P := fun s => l.size + 1 ≤ s ∧ s ≤ l.size + r.size)
          (fun _ hmem hsource => alternate_right hl hr hmem hsource) hend (by omega) (by omega)
        rw [Int.sub_self, Int.add_sub_cancel] at hwalk
        refine .inr ⟨inside, hwalk, ?_⟩
        rw [wordOf_cons_epsilon, wordOf_concat_epsilon]
  · obtain ⟨hleft, hleft', hright, hright'⟩ := new_mem_alternate l r
    intro h
    rcases h with ⟨symbols, walk, rfl⟩ | ⟨symbols, walk, rfl⟩
    · have hinside : Spells (l.alternate r).arrows 1 (wordOf symbols) (l.accept + 1) :=
        ⟨symbols, walk_alternate_left r walk, rfl⟩
      exact (hinside.silent_behind hleft').silent hleft
    · have hinside : Spells (l.alternate r).arrows (startState + (l.size + 1)) (wordOf symbols)
          (r.accept + (l.size + 1)) := ⟨symbols, walk_alternate_right l walk, rfl⟩
      rw [startState_add] at hinside
      exact (hinside.silent_behind hright').silent hright

end Alternate

/-! ## Repetition -/

section Star

variable {a : Automaton}

/-- The four new arrows: in, out, back to the start of the repeated automaton, and past it. -/
theorem new_mem_star (a : Automaton) :
    ⟨startState, epsilon, 1⟩ ∈ a.star.arrows ∧
      ⟨a.accept + 1, epsilon, a.star.accept⟩ ∈ a.star.arrows ∧
      ⟨a.accept + 1, epsilon, 1⟩ ∈ a.star.arrows ∧
      ⟨startState, epsilon, a.star.accept⟩ ∈ a.star.arrows :=
  ⟨(mem_arrows_star a).mpr (.inl rfl), (mem_arrows_star a).mpr (.inr (.inr (.inl rfl))),
    (mem_arrows_star a).mpr (.inr (.inr (.inr (.inl rfl)))),
    (mem_arrows_star a).mpr (.inr (.inr (.inr (.inr rfl))))⟩

/-- The repeated automaton is found one state on. -/
theorem walk_star_inside {s t : Int} {symbols : List Char} (walk : Walk a.arrows s symbols t) :
    Walk a.star.arrows (s + 1) symbols (t + 1) :=
  (walk.shifted 1).mono fun _ h => (mem_arrows_star a).mpr (.inr (.inl (List.mem_map.mp h)))

/-- A walk that is inside the repeated automaton finishes the round it is in, makes any number
of rounds more, and goes out. -/
theorem star_rounds (ha : Compact a) {s t : Int} {symbols : List Char}
    (walk : Walk a.star.arrows s symbols t) (ht : t = a.star.accept)
    (hs : 1 ≤ s ∧ s ≤ a.size) :
    ∃ (last : List Char) (parts : List (List Char)), Spells a.arrows (s - 1) last a.accept ∧
      (∀ part ∈ parts, a.Reads part) ∧ wordOf symbols = last ++ parts.flatten := by
  have hacc := ha.accept_mem
  have hend := (isFragment_star ha).no_exit
  rw [accept_star] at ht hend
  induction walk with
  | stay _ => omega
  | @step s u t c symbols hmem rest ih =>
    rcases (mem_arrows_star a).mp hmem with heq | ⟨b, hb, heq⟩ | heq | heq | heq <;>
      obtain ⟨hsource, hsymbol, htarget⟩ := Arrow.mk.inj heq
    · -- out of the new start, which lies outside
      omega
    · -- an arrow of the automaton itself: the round goes on
      have hu := ha.target_mem b hb
      obtain ⟨last, parts, hlast, hparts, hword⟩ := ih ht (by omega)
      have hinside : ⟨s - 1, c, u - 1⟩ ∈ a.arrows := Arrow.mem_of_shifted_eq hb heq
      by_cases hc : c = epsilon
      · subst hc
        exact ⟨last, parts, hlast.silent hinside, hparts, by rw [wordOf_cons_epsilon, hword]⟩
      · refine ⟨c :: last, parts, hlast.letter hinside hc, hparts, ?_⟩
        rw [wordOf_cons_letter hc, hword]
        rfl
    · -- the way out: this was the last round
      subst ht hsource hsymbol htarget
      obtain ⟨rfl, -⟩ := rest.stuck hend
      refine ⟨[], [], ?_, fun part h => absurd h List.not_mem_nil, rfl⟩
      rw [Int.add_sub_cancel]
      exact .refl _ _
    · -- the way back: what follows is a round of its own
      subst hsource hsymbol htarget
      obtain ⟨last, parts, hlast, hparts, hword⟩ := ih ht (by omega)
      refine ⟨[], last :: parts, ?_, ?_, ?_⟩
      · rw [Int.add_sub_cancel]
        exact .refl _ _
      · intro part hpart
        rcases List.mem_cons.mp hpart with rfl | hpart
        · rw [Int.sub_self] at hlast
          exact hlast
        · exact hparts part hpart
      · rw [wordOf_cons_epsilon, hword]
        rfl
    · omega

theorem spells_star_of_reads {word : List Char} (h : a.Reads word) :
    Spells a.star.arrows 1 word (a.accept + 1) := by
  obtain ⟨symbols, walk, hword⟩ := h
  exact ⟨symbols, walk_star_inside walk, hword⟩

/-- Words that the automaton reads lead from the end of a round to the new accepting state. -/
theorem spells_star_of_parts {parts : List (List Char)} (hparts : ∀ part ∈ parts, a.Reads part) :
    Spells a.star.arrows (a.accept + 1) parts.flatten a.star.accept := by
  obtain ⟨-, hout, hback, -⟩ := new_mem_star a
  induction parts with
  | nil => exact (Spells.refl _ _).silent hout
  | cons part parts ih =>
    have hrest := ih fun p hp => hparts p (List.mem_cons_of_mem _ hp)
    have hround := spells_star_of_reads (hparts part List.mem_cons_self)
    exact (hround.trans hrest).silent hback

/-- **Repetition.** A repeated automaton reads any number of words in a row that the automaton
reads. -/
theorem reads_star (ha : Compact a) (word : List Char) :
    a.star.Reads word ↔
      ∃ parts : List (List Char), (∀ part ∈ parts, a.Reads part) ∧ word = parts.flatten := by
  have hacc := ha.accept_mem
  have hend := (isFragment_star ha).no_exit
  constructor
  · intro h
    obtain ⟨symbols, walk, rfl⟩ := h
    generalize hstart : startState = s at walk
    change (0 : Int) = s at hstart
    generalize haccept : a.star.accept = t at walk
    cases walk with
    | stay _ =>
      rw [accept_star] at haccept
      omega
    | step hmem rest =>
      rcases (mem_arrows_star a).mp hmem with heq | ⟨b, hb, heq⟩ | heq | heq | heq <;>
        obtain ⟨hsource, rfl, htarget⟩ := Arrow.mk.inj heq
      · subst htarget
        obtain ⟨last, parts, hlast, hparts, hword⟩ :=
          star_rounds ha rest haccept.symm (by omega)
        rw [Int.sub_self] at hlast
        refine ⟨last :: parts, ?_, ?_⟩
        · intro part hpart
          rcases List.mem_cons.mp hpart with rfl | hpart
          · exact hlast
          · exact hparts part hpart
        · rw [wordOf_cons_epsilon, hword]
          rfl
      · have := ha.source_mem b hb
        omega
      · omega
      · omega
      · rw [htarget, ← accept_star] at rest
        obtain ⟨rfl, -⟩ := rest.stuck hend
        exact ⟨[], fun part h => absurd h List.not_mem_nil, rfl⟩
  · intro h
    obtain ⟨parts, hparts, rfl⟩ := h
    obtain ⟨hin, -, -, hpast⟩ := new_mem_star a
    cases parts with
    | nil => exact (Spells.refl _ _).silent hpast
    | cons part parts =>
      have hfirst := spells_star_of_reads (hparts part List.mem_cons_self)
      have hrest := spells_star_of_parts fun p hp => hparts p (List.mem_cons_of_mem _ hp)
      exact (hfirst.trans hrest).silent hin

end Star

end Automaton

end RegexAutomata
