import Mathlib.Data.List.Nodup
import RegexAutomata.Proofs.Automaton.Shape

/-!
# How many arrows meet

In a constructed automaton at most two arrows leave a state, and at most two enter it. Where there
are two, both read nothing, so that letters never compete. And no arrow is listed twice.

`Sparse` says so of a list of arrows, for both tips of an arrow alike. What carries it through
the constructions is one fact: lists that share neither sources nor targets can be put together
(`Sparse.append`). They may share a state all the same. In `append` the two sides do, but what
enters the shared state belongs to the left side and what leaves it to the right, because a
fragment is never entered at its start nor left where it accepts. For the same reason the new arrows
of `alternate` and `star` find a start that nothing enters and an end that nothing leaves.

Main result: `Constructed.sparse`.
-/

namespace RegexAutomata

/-- The two tips of an arrow. -/
inductive Tip where
  | source
  | target

/-- The state at a tip of the arrow. -/
def Arrow.at (arrow : Arrow) : Tip → Int
  | .source => arrow.source
  | .target => arrow.target

theorem Arrow.at_shifted (arrow : Arrow) (offset : Int) (tip : Tip) :
    (arrow.shifted offset).at tip = arrow.at tip + offset := by
  cases tip <;> rfl

theorem Arrow.shifted_injective (offset : Int) :
    Function.Injective fun arrow : Arrow => arrow.shifted offset := by
  intro first second heq
  have hback : ∀ arrow : Arrow, (arrow.shifted offset).shifted (-offset) = arrow := by
    intro arrow
    rw [Arrow.shifted_shifted, Int.add_right_neg]
    unfold Arrow.shifted
    rw [Int.add_zero, Int.add_zero]
  rw [← hback first, ← hback second]
  exact congrArg (·.shifted (-offset)) heq

/-- The arrows that have the state at that tip. -/
def meeting (tip : Tip) (arrows : List Arrow) (s : Int) : List Arrow :=
  arrows.filter fun arrow => arrow.at tip = s

/-- At most two arrows leave a state, and at most two enter it; two that do read nothing. No arrow
is listed twice. -/
structure Sparse (arrows : List Arrow) : Prop where
  nodup : arrows.Nodup
  length_le : ∀ tip s, (meeting tip arrows s).length ≤ 2
  silent : ∀ tip s, (meeting tip arrows s).length = 2 →
    ∀ arrow ∈ meeting tip arrows s, arrow.symbol = epsilon

section Meeting

variable {tip : Tip} {xs ys : List Arrow}

theorem mem_meeting {s : Int} {arrow : Arrow} :
    arrow ∈ meeting tip xs s ↔ arrow ∈ xs ∧ arrow.at tip = s := by
  rw [meeting, List.mem_filter, decide_eq_true_eq]

theorem meeting_shifted (tip : Tip) (arrows : List Arrow) (offset s : Int) :
    meeting tip (arrows.map (·.shifted offset)) s
      = (meeting tip arrows (s - offset)).map (·.shifted offset) := by
  rw [meeting, List.filter_map, meeting]
  congr 1
  refine List.filter_congr fun arrow _ => ?_
  simp only [Function.comp, Arrow.at_shifted, decide_eq_decide]
  omega

/-- Of two lists that have no state in common at that tip, only one has arrows at a state. -/
theorem meeting_append (h : ∀ x ∈ xs, ∀ y ∈ ys, x.at tip ≠ y.at tip) (s : Int) :
    meeting tip (xs ++ ys) s = meeting tip xs s ∨ meeting tip (xs ++ ys) s = meeting tip ys s := by
  have hsplit : meeting tip (xs ++ ys) s = meeting tip xs s ++ meeting tip ys s :=
    List.filter_append xs ys
  rw [hsplit]
  cases hxs : meeting tip xs s with
  | nil => exact .inr rfl
  | cons x rest =>
    obtain ⟨hx, hxtip⟩ := mem_meeting.mp (hxs ▸ List.mem_cons_self : x ∈ meeting tip xs s)
    have hys : meeting tip ys s = [] := by
      refine List.eq_nil_iff_forall_not_mem.mpr fun y hmem => ?_
      obtain ⟨hy, hytip⟩ := mem_meeting.mp hmem
      exact h x hx y hy (hxtip.trans hytip.symm)
    rw [hys, List.append_nil]
    exact .inl rfl

/-- Where two pairs have no state in common at that tip, no three of their arrows meet. -/
theorem length_meeting_le {w x y z : Arrow} (hperm : ([w, x] ++ [y, z]).Perm xs)
    (hapart : ∀ first ∈ [w, x], ∀ second ∈ [y, z], first.at tip ≠ second.at tip) (s : Int) :
    (meeting tip xs s).length ≤ 2 := by
  have hmeet : (meeting tip ([w, x] ++ [y, z]) s).Perm (meeting tip xs s) := hperm.filter _
  rw [← hmeet.length_eq]
  rcases meeting_append hapart s with h | h <;> rw [h] <;> exact List.length_filter_le _ _

end Meeting

namespace Sparse

variable {xs ys : List Arrow}

theorem append (hx : Sparse xs) (hy : Sparse ys)
    (hapart : ∀ x ∈ xs, ∀ y ∈ ys, ∀ tip, x.at tip ≠ y.at tip) : Sparse (xs ++ ys) := by
  have hmeet : ∀ tip s, meeting tip (xs ++ ys) s = meeting tip xs s ∨
      meeting tip (xs ++ ys) s = meeting tip ys s :=
    fun tip => meeting_append fun x hx y hy => hapart x hx y hy tip
  refine ⟨?_, fun tip s => ?_, fun tip s => ?_⟩
  · refine List.nodup_append.mpr ⟨hx.nodup, hy.nodup, fun x hx y hy heq => ?_⟩
    exact hapart x hx y hy .source (congrArg (·.at .source) heq)
  · rcases hmeet tip s with h | h <;> rw [h]
    · exact hx.length_le tip s
    · exact hy.length_le tip s
  · rcases hmeet tip s with h | h <;> rw [h]
    · exact hx.silent tip s
    · exact hy.silent tip s

theorem shifted (h : Sparse xs) (offset : Int) : Sparse (xs.map (·.shifted offset)) := by
  refine ⟨?_, fun tip s => ?_, fun tip s hlength => ?_⟩
  · exact h.nodup.map (Arrow.shifted_injective offset)
  · rw [meeting_shifted, List.length_map]
    exact h.length_le tip (s - offset)
  · rw [meeting_shifted, List.length_map] at hlength
    rw [meeting_shifted]
    intro arrow hmem
    obtain ⟨b, hb, rfl⟩ := List.mem_map.mp hmem
    exact h.silent tip (s - offset) hlength b hb

theorem perm (h : Sparse xs) (hperm : xs.Perm ys) : Sparse ys := by
  have hmeet : ∀ tip s, (meeting tip xs s).Perm (meeting tip ys s) :=
    fun _ _ => hperm.filter _
  refine ⟨hperm.nodup_iff.mp h.nodup, fun tip s => ?_, fun tip s hlength arrow hmem => ?_⟩
  · rw [← (hmeet tip s).length_eq]
    exact h.length_le tip s
  · rw [← (hmeet tip s).length_eq] at hlength
    exact h.silent tip s hlength arrow ((hmeet tip s).mem_iff.mpr hmem)

/-- Arrows that read nothing have only to be counted. -/
theorem of_silent (hsilent : ∀ arrow ∈ xs, arrow.symbol = epsilon) (hnodup : xs.Nodup)
    (hlength : ∀ tip s, (meeting tip xs s).length ≤ 2) : Sparse xs :=
  ⟨hnodup, hlength, fun _ _ _ arrow hmem => hsilent arrow (mem_meeting.mp hmem).1⟩

theorem pair {first second : Arrow} (hne : first ≠ second) (hfirst : first.symbol = epsilon)
    (hsecond : second.symbol = epsilon) : Sparse [first, second] := by
  refine .of_silent ?_ (by simpa using hne) fun _ _ => List.length_filter_le _ _
  intro arrow hmem
  rcases List.mem_pair.mp hmem with rfl | rfl
  · exact hfirst
  · exact hsecond

end Sparse

namespace Automaton

theorem sparse_single (c : Char) : Sparse (single c).arrows := by
  have hlength : ∀ tip s, (meeting tip (single c).arrows s).length ≤ 1 :=
    fun _ _ => List.length_filter_le _ _
  refine ⟨List.nodup_singleton _, fun tip s => ?_, fun tip s htwo => ?_⟩
  · exact Nat.le_succ_of_le (hlength tip s)
  · have hone := hlength tip s
    omega

/-- In a fragment arrows start below the last state and end above the first. -/
theorem IsFragment.bounds {a : Automaton} (ha : IsFragment a) {arrow : Arrow}
    (h : arrow ∈ a.arrows) :
    0 ≤ arrow.source ∧ arrow.source < a.size - 1 ∧ 1 ≤ arrow.target ∧ arrow.target < a.size := by
  have hsource := ha.source_mem arrow h
  have htarget := ha.target_mem arrow h
  have hexit := ha.no_exit arrow h
  have hentry : arrow.target ≠ 0 := ha.no_entry arrow h
  have hacc := ha.accept_eq
  omega

section Append

variable {l r : Automaton}

theorem sparse_append (hl : IsFragment l) (hr : IsFragment r) (sl : Sparse l.arrows)
    (sr : Sparse r.arrows) : Sparse (l.append r).arrows := by
  refine sl.append (sr.shifted (l.states.getLastD startState)) fun x hx y hy tip => ?_
  obtain ⟨b, hb, rfl⟩ := List.mem_map.mp hy
  have hx := hl.bounds hx
  have hb := hr.bounds hb
  rw [hl.getLastD_states, Arrow.at_shifted]
  -- the left side leaves no state that the right side leaves, and enters none that it enters
  cases tip with
  | source =>
    simp only [Arrow.at]
    omega
  | target =>
    simp only [Arrow.at]
    omega

end Append

section Alternate

variable {l r : Automaton}

/-- The arrows of a choice: two out of the new start, two into the new accepting state, and those
of the sides. -/
theorem arrows_alternate_perm (l r : Automaton) :
    ([⟨0, epsilon, 1⟩, ⟨0, epsilon, l.size + 1⟩] ++
        [⟨l.accept + 1, epsilon, l.size + r.size + 1⟩,
          ⟨r.accept + (l.size + 1), epsilon, l.size + r.size + 1⟩] ++
      (l.arrows.map (·.shifted 1) ++ r.arrows.map (·.shifted (l.size + 1))) : List Arrow).Perm
      (l.alternate r).arrows := by
  refine List.perm_iff_count.mpr fun arrow => ?_
  simp only [alternate, List.count_append, List.count_cons, List.count_nil]
  omega

theorem sparse_alternate (hl : IsFragment l) (hr : IsFragment r) (sl : Sparse l.arrows)
    (sr : Sparse r.arrows) : Sparse (l.alternate r).arrows := by
  have hlsize := hl.two_le_size
  have hrsize := hr.two_le_size
  have hnew := arrows_alternate_perm l r
  rw [hl.accept_eq, hr.accept_eq] at hnew
  refine Sparse.perm (.append (.append ?_ ?_ ?_) (.append (sl.shifted 1) (sr.shifted _) ?_) ?_) hnew
  · refine .pair (fun heq => ?_) rfl rfl
    have htarget := (Arrow.mk.inj heq).2.2
    omega
  · refine .pair (fun heq => ?_) rfl rfl
    have hsource := (Arrow.mk.inj heq).1
    omega
  · intro x hx y hy tip
    rcases List.mem_pair.mp hx with rfl | rfl <;> rcases List.mem_pair.mp hy with rfl | rfl <;>
      cases tip <;> simp only [Arrow.at] <;> omega
  · intro x hx y hy tip
    obtain ⟨b, hb, rfl⟩ := List.mem_map.mp hx
    obtain ⟨d, hd, rfl⟩ := List.mem_map.mp hy
    have hb := hl.bounds hb
    have hd := hr.bounds hd
    rw [Arrow.at_shifted, Arrow.at_shifted]
    cases tip <;> simp only [Arrow.at] <;> omega
  · -- what is new leaves states that no side leaves, and enters states that no side enters
    intro x hx y hy tip
    rcases List.mem_append.mp hy with hy | hy <;> obtain ⟨b, hb, rfl⟩ := List.mem_map.mp hy <;>
      rw [Arrow.at_shifted]
    · have hb := hl.bounds hb
      rcases List.mem_append.mp hx with hx | hx <;> rcases List.mem_pair.mp hx with rfl | rfl <;>
        cases tip <;> simp only [Arrow.at] <;> omega
    · have hb := hr.bounds hb
      rcases List.mem_append.mp hx with hx | hx <;> rcases List.mem_pair.mp hx with rfl | rfl <;>
        cases tip <;> simp only [Arrow.at] <;> omega

end Alternate

section Star

variable {a : Automaton}

/-- The new arrows of a repetition: two leave the new start and two the old accepting state; two
enter the old start and two the new accepting state. -/
theorem sparse_star_new {p t : Int} (hp : p ≠ 0) (ht : t ≠ 1) :
    Sparse [⟨0, epsilon, 1⟩, ⟨p, epsilon, t⟩, ⟨p, epsilon, 1⟩, ⟨0, epsilon, t⟩] := by
  refine .of_silent (by simp) (by simp; omega) fun tip s => ?_
  -- what meets at the sources is paired otherwise than what meets at the targets
  cases tip with
  | source =>
    have hperm : ([⟨0, epsilon, 1⟩, ⟨0, epsilon, t⟩] ++ [⟨p, epsilon, t⟩, ⟨p, epsilon, 1⟩] :
        List Arrow).Perm
        [⟨0, epsilon, 1⟩, ⟨p, epsilon, t⟩, ⟨p, epsilon, 1⟩, ⟨0, epsilon, t⟩] :=
      .cons _ ((List.Perm.swap _ _ _).trans (.cons _ (.swap _ _ _)))
    refine length_meeting_le hperm (fun first hfirst second hsecond => ?_) s
    rcases List.mem_pair.mp hfirst with rfl | rfl <;>
      rcases List.mem_pair.mp hsecond with rfl | rfl <;> simp only [Arrow.at] <;> omega
  | target =>
    have hperm : ([⟨0, epsilon, 1⟩, ⟨p, epsilon, 1⟩] ++ [⟨p, epsilon, t⟩, ⟨0, epsilon, t⟩] :
        List Arrow).Perm
        [⟨0, epsilon, 1⟩, ⟨p, epsilon, t⟩, ⟨p, epsilon, 1⟩, ⟨0, epsilon, t⟩] :=
      .cons _ (.swap _ _ _)
    refine length_meeting_le hperm (fun first hfirst second hsecond => ?_) s
    rcases List.mem_pair.mp hfirst with rfl | rfl <;>
      rcases List.mem_pair.mp hsecond with rfl | rfl <;> simp only [Arrow.at] <;> omega

theorem sparse_star (ha : IsFragment a) (sa : Sparse a.arrows) : Sparse a.star.arrows := by
  have hsize := ha.two_le_size
  have hperm : ([⟨0, epsilon, 1⟩, ⟨a.accept + 1, epsilon, a.size + 1⟩, ⟨a.accept + 1, epsilon, 1⟩,
      ⟨0, epsilon, a.size + 1⟩] ++ a.arrows.map (·.shifted 1) : List Arrow).Perm a.star.arrows :=
    .cons _ List.perm_append_comm
  refine Sparse.perm (.append (sparse_star_new ?_ ?_) (sa.shifted 1) fun x hx y hy tip => ?_) hperm
  · rw [ha.accept_eq]
    omega
  · omega
  · obtain ⟨b, hb, rfl⟩ := List.mem_map.mp hy
    have hb := ha.bounds hb
    have hacc := ha.accept_eq
    simp only [List.mem_cons, List.not_mem_nil, or_false] at hx
    rw [Arrow.at_shifted]
    rcases hx with rfl | rfl | rfl | rfl <;> cases tip <;> simp only [Arrow.at] <;> omega

end Star

/-- **Arrows hardly meet in what is constructed**, however the parts are nested. -/
theorem Constructed.sparse {a : Automaton} (h : Constructed a) : Sparse a.arrows := by
  induction h with
  | single c => exact sparse_single c
  | append hl hr ihl ihr => exact sparse_append hl.isFragment hr.isFragment ihl ihr
  | alternate hl hr ihl ihr => exact sparse_alternate hl.isFragment hr.isFragment ihl ihr
  | star ha ih => exact sparse_star ha.isFragment ih

end Automaton

end RegexAutomata
