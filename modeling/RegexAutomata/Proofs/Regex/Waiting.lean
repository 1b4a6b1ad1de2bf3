import Mathlib.Data.List.TakeWhile
import RegexAutomata.Proofs.Regex.Conservation

/-!
# What waits on top of the stacks

Whatever the stacks hold, the marks on top that wait for operands form a block of their own. It
ends at the bottom of the stack or at a mark that waits for nothing, and the reductions of a group
take marks from this block only. Each of them makes one operand of as many as it takes marks and
one more, so that all of them together work on one operand more than there are waiting marks. What
lies beyond the block, and what lies below those operands, is the base that the reductions leave
alone.

Main result: `sameBase_of_steps`.
-/

namespace RegexAutomata

/-- A run of concatenation marks waits. -/
theorem isWaiting_run (n : Nat) :
    ∀ mark ∈ List.replicate n Mark.concatenation, mark.isWaiting = true := by
  intro mark hmark
  rw [List.eq_of_mem_replicate hmark]
  rfl

namespace Machine

/-- The marks on top that wait for operands. -/
def waiting (m : Machine) : List Mark :=
  m.marks.takeWhile Mark.isWaiting

/-- The marks from the first one on that waits for nothing. -/
def beyond (m : Machine) : List Mark :=
  m.marks.dropWhile Mark.isWaiting

/-- The operands below those that the waiting marks make into one. -/
def untouched (m : Machine) : List Automaton :=
  m.operands.drop (m.waiting.length + 1)

variable {m m' m'' : Machine} {position : Int}

theorem waiting_append_beyond (m : Machine) : m.waiting ++ m.beyond = m.marks :=
  List.takeWhile_append_dropWhile

theorem isWaiting_of_mem_waiting {mark : Mark} (h : mark ∈ m.waiting) : mark.isWaiting = true :=
  List.mem_takeWhile_imp h

/-- Marks on top that wait belong to the block, whatever comes below them. -/
theorem split_marks {own under : List Mark} (hmarks : m.marks = own ++ under)
    (hown : ∀ mark ∈ own, mark.isWaiting = true) :
    m.waiting = own ++ under.takeWhile Mark.isWaiting ∧
      m.beyond = under.dropWhile Mark.isWaiting := by
  rw [waiting, beyond, hmarks]
  exact ⟨List.takeWhile_append_of_pos hown, List.dropWhile_append_of_pos hown⟩

/-- A group mark ends the block. -/
theorem split_marks_group {own below : List Mark} (hmarks : m.marks = own ++ .group :: below)
    (hown : ∀ mark ∈ own, mark.isWaiting = true) :
    m.waiting = own ∧ m.beyond = .group :: below := by
  obtain ⟨hwaiting, hbeyond⟩ := split_marks hmarks hown
  exact ⟨hwaiting.trans (List.append_nil own), hbeyond⟩

/-! ## One reduction -/

/-- A reduction, if not of a group mark, takes waiting marks off the top and makes one operand of as
many as these, and one more. -/
theorem exists_joined_of_reduced (h : Reduced m m') (hhead : m.marks.head? ≠ some .group) :
    ∃ run used rest made, m.marks = run ++ m'.marks ∧ (∀ mark ∈ run, mark.isWaiting = true) ∧
      run ≠ [] ∧ m.operands = used ++ rest ∧ used.length = run.length + 1 ∧
      m'.operands = made :: rest := by
  cases h with
  | @concatenation below left right rest hmarks hoperands _ =>
    exact ⟨[.concatenation], [right, left], rest, _, hmarks, List.forall_mem_singleton.mpr rfl,
      List.cons_ne_nil _ _, hoperands, rfl, rfl⟩
  | @alternation n below left right chain rest hmarks _ hoperands hchain _ =>
    refine ⟨.alternation :: List.replicate n .concatenation, right :: chain, rest, _, hmarks,
      List.forall_mem_cons.mpr ⟨rfl, isWaiting_run n⟩, List.cons_ne_nil _ _, hoperands, ?_, rfl⟩
    rw [List.length_cons, hchain, List.length_cons, List.length_replicate]
  | group hmarks => exact absurd (by rw [hmarks]; rfl) hhead

/-- A reduction is about the stacks only. -/
theorem eq_of_reduced (h : Reduced m m') :
    m' = { m with marks := m'.marks, operands := m'.operands } := by
  cases h <;> rfl

/-! ## What the reductions leave alone -/

/-- The second machine differs from the first in the block of waiting marks and in the operands
that these work on; operands and marks have gone together. -/
structure SameBase (m m' : Machine) : Prop where
  beyond_eq : m'.beyond = m.beyond
  untouched_eq : m'.untouched = m.untouched
  length_eq : m'.operands.length + m.waiting.length = m.operands.length + m'.waiting.length
  stacks_only : m' = { m with marks := m'.marks, operands := m'.operands }

namespace SameBase

theorem refl (m : Machine) : SameBase m m :=
  ⟨rfl, rfl, rfl, rfl⟩

theorem trans (h : SameBase m m') (h' : SameBase m' m'') : SameBase m m'' := by
  refine ⟨h'.beyond_eq.trans h.beyond_eq, h'.untouched_eq.trans h.untouched_eq, ?_, ?_⟩
  · have hfirst := h.length_eq
    have hsecond := h'.length_eq
    omega
  · rw [h'.stacks_only, h.stacks_only]

end SameBase

/-- **One reduction.** The base stays. -/
theorem sameBase_of_step (h : Step position m m') : SameBase m m' := by
  obtain ⟨hreduced, hhead⟩ := reduced_of_step h
  obtain ⟨run, used, rest, made, hmarks, hrun, -, hoperands, hused, hmade⟩ :=
    exists_joined_of_reduced hreduced hhead
  obtain ⟨hwaiting, hbeyond⟩ := split_marks hmarks hrun
  have hlength : m.waiting.length = run.length + m'.waiting.length := by
    rw [hwaiting, List.length_append]
    rfl
  refine ⟨hbeyond.symm, ?_, ?_, eq_of_reduced hreduced⟩
  · have hdrop : m.waiting.length + 1 = used.length + m'.waiting.length := by omega
    rw [untouched, untouched, hmade, hdrop, hoperands, List.drop_length_add_append]
    rfl
  · rw [hmade, hoperands, List.length_cons, List.length_append]
    omega

/-- **All reductions of a group.** The base stays. -/
theorem sameBase_of_steps (h : Relation.ReflTransGen (Step position) m m') : SameBase m m' := by
  induction h with
  | refl => exact .refl m
  | tail _ hstep ih => exact ih.trans (sameBase_of_step hstep)

end Machine

end RegexAutomata
