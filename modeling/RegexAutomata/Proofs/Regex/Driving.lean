import RegexAutomata.Proofs.Regex.Conservation
import RegexAutomata.Regex.Script

/-!
# Driving the machine from any state

The accounts of `Conservation` hold of single steps, wherever they are made. Here they are put
together for the machine as it is driven: through any tokens, also through texts that are none,
and from any state, also from one whose stacks do not fit together, that holds marks which are no
operators, or whose counter of open groups is negative.

Only taking an operand off by itself costs a surplus operand; so along a whole drive the surplus
sinks with the number of such actions and by nothing else (`surplus_of_drive`).

Main result: `step_conserves`.
-/

namespace RegexAutomata

/-- Whether the action takes an operand off and does nothing else. -/
def Action.isPop : Action → Bool
  | .pop _ => true
  | .shift _ _ | .reduce _ => false

namespace Machine

variable {m m' : Machine} {position : Int}

/-- What is taken off by a reduction: the mark on top, and below it no group mark. -/
theorem exists_run_of_reduced (h : Reduced m m') :
    ∃ top run, m.marks = top :: (run ++ m'.marks) ∧ .group ∉ run := by
  cases h with
  | concatenation hmarks _ _ => exact ⟨_, [], hmarks, List.not_mem_nil⟩
  | alternation hmarks _ _ _ _ =>
    refine ⟨_, _, hmarks, fun hmem => ?_⟩
    have heq := List.eq_of_mem_replicate hmem
    contradiction
  | group hmarks => exact ⟨_, [], hmarks, List.not_mem_nil⟩

theorem surplus_of_takeTop {top : Automaton} (h : m.takeTop position = .ok (top, m')) :
    m'.surplus + 1 = m.surplus := by
  unfold takeTop at h
  split at h
  · contradiction
  · next hoperands =>
    cases h
    simp only [surplus, required, hoperands, List.length_cons]
    omega

/-- One action: the surplus is kept, unless an operand is taken off by itself. -/
theorem surplus_of_perform {action : Action} (h : m.perform action = .ok m') :
    m'.surplus + (if action.isPop then 1 else 0) = m.surplus := by
  cases action with
  | shift text position => exact (Int.add_zero _).trans (surplus_of_shifted (shifted_of_shift h))
  | reduce position => exact (Int.add_zero _).trans (surplus_of_reduced (reduced_of_reduce h))
  | pop position =>
    rw [perform] at h
    cases htake : m.takeTop position with
    | error fault =>
      rw [htake] at h
      contradiction
    | ok taken =>
      rw [htake] at h
      cases h
      exact surplus_of_takeTop htake

theorem drive_cons (m : Machine) (action : Action) (rest : List Action) :
    (m.drive (action :: rest)).2 = (m.perform action).bind fun next => (next.drive rest).2 := by
  rw [drive]
  cases m.perform action <;> rfl

/-- Along a drive the surplus sinks by the operands that are taken off by themselves. -/
theorem surplus_of_drive {actions : List Action} (h : (m.drive actions).2 = .ok m') :
    m'.surplus + actions.countP Action.isPop = m.surplus := by
  induction actions generalizing m with
  | nil =>
    cases h
    exact Int.add_zero _
  | cons action rest ih =>
    rw [drive_cons] at h
    cases hperform : m.perform action with
    | error fault =>
      rw [hperform] at h
      contradiction
    | ok next =>
      rw [hperform] at h
      have hrest := ih h
      have hfirst := surplus_of_perform hperform
      rw [List.countP_cons, ← hfirst, ← hrest, Int.natCast_add, Int.add_assoc]
      congr 2
      split <;> rfl

/-- **Conservation.** From whatever state, a token that is taken in without being refused changes
neither the surplus of operands nor the groups that are counted without having a mark. A reduction
that is not refused keeps the surplus, the flag and the counter of open groups; it takes the top
mark off and marks below it that are no group marks. So a whole drive keeps the surplus, unless
operands are taken off by themselves. -/
theorem step_conserves (m m' : Machine) (position : Int) :
    (∀ text, m.perform (.shift text position) = .ok m' →
      m'.surplus = m.surplus ∧ m'.uncounted = m.uncounted) ∧
    (m.perform (.reduce position) = .ok m' →
      m'.surplus = m.surplus ∧ m'.afterOperand = m.afterOperand ∧
        m'.openGroups = m.openGroups ∧ m'.marks.length < m.marks.length ∧
        ∃ top run, m.marks = top :: (run ++ m'.marks) ∧ .group ∉ run) ∧
    ∀ actions, (m.drive actions).2 = .ok m' →
      m'.surplus + actions.countP Action.isPop = m.surplus := by
  refine ⟨fun text h => ?_, fun h => ?_, fun actions h => surplus_of_drive h⟩
  · have hshifted := shifted_of_shift h
    exact ⟨surplus_of_shifted hshifted, uncounted_of_shifted hshifted⟩
  · have hreduced := reduced_of_reduce h
    obtain ⟨hafter, hopen⟩ := frame_of_reduced hreduced
    exact ⟨surplus_of_reduced hreduced, hafter, hopen, marks_lt_of_reduce h,
      exists_run_of_reduced hreduced⟩

/-- Stacks that no text leads to: the counter is negative, one mark is no operator, there are more
operands than marks, and one of them is an automaton without states. Closing the group reduces an
alternation with the run below it. -/
theorem step_conserves_misfit :
    ∃ m closed reduced last : Machine,
      m.marks = [.alternation, .concatenation, .group, .foreign "?"] ∧ m.operands.length = 4 ∧
      m.openGroups = -3 ∧ m.surplus = 1 ∧
      (m.perform (.shift ")" 7) = .ok closed ∧ closed.marks = [.foreign "?"] ∧
        closed.surplus = m.surplus ∧ closed.uncounted = m.uncounted) ∧
      (m.perform (.reduce 7) = .ok reduced ∧ reduced.surplus = m.surplus ∧
        ∃ top run, m.marks = top :: (run ++ reduced.marks) ∧ .group ∉ run) ∧
      (m.drive [.reduce 7, .pop 7]).2 = .ok last ∧ last.surplus + 1 = m.surplus := by
  let choice : Automaton := ((Automaton.single 'a').append (.single 'b')).alternate (.single 'c')
  let m : Machine := ⟨"", [.alternation, .concatenation, .group, .foreign "?"],
    [.single 'c', .single 'b', .single 'a', .empty], true, -3⟩
  let reduced : Machine := ⟨"", [.group, .foreign "?"], [choice, .empty], true, -3⟩
  let closed : Machine := ⟨"", [.foreign "?"], [choice, .empty], true, -4⟩
  have hclose : m.perform (.shift ")" 7) = .ok closed := by
    show ({ m with openGroups := -4 }.closeGroup 7).result = .ok closed
    rw [result_closeGroup_cons rfl (by decide)]
    exact closeGroup_of_group rfl
  have hreduce : m.perform (.reduce 7) = .ok reduced := rfl
  have hdrive : (m.drive [.reduce 7, .pop 7]).2 = .ok { reduced with operands := [.empty] } := rfl
  obtain ⟨hsurplus, huncounted⟩ := (step_conserves m closed 7).1 ")" hclose
  obtain ⟨hsurplus', -, -, -, hrun⟩ := (step_conserves m reduced 7).2.1 hreduce
  exact ⟨m, closed, reduced, _, rfl, rfl, rfl, rfl, ⟨hclose, rfl, hsurplus, huncounted⟩,
    ⟨hreduce, hsurplus', hrun⟩, hdrive, (step_conserves m _ 7).2.2 _ hdrive⟩

end Machine

end RegexAutomata
