import RegexAutomata.Proofs.Regex.Balance
import RegexAutomata.Proofs.Regex.Built
import RegexAutomata.Proofs.Regex.Waiting
import RegexAutomata.Regex.Script

/-!
# Closing a group from any state

`Balance` says that a text never leads to stacks on which a group cannot be closed. Here the stacks
are any, and the question is on which of them it can. The closing parenthesis has the waiting marks
reduced first, whatever order they come in and however many of them an alternation takes at once.
So two things decide:

* whether there are operands enough for the waiting marks, which is one more than marks, or
  anything at all if no mark waits (`Supplied`). No reduction changes the answer
  (`supplied_iff_of_step`), so that with too few operands the reductions run into the want of one,
  and with enough of them they come to an end;
* what lies beyond the waiting marks: a group mark, which is taken off, a foreign mark, which is
  refused, or the bottom of the stack.

`ends_closeGroup` lists the endings.

Main result: `closing_from_any_state`.
-/

namespace RegexAutomata

namespace Machine

/-- There are operands for the waiting marks. -/
def Supplied (m : Machine) : Prop :=
  m.waiting = [] ∨ m.waiting.length < m.operands.length

variable {m m' : Machine} {position : Int}

/-! ## One reduction -/

/-- A concatenation with fewer than two operands is refused. -/
theorem reduce_concatenation_short {below : List Mark} (hmarks : m.marks = .concatenation :: below)
    (hlength : m.operands.length < 2) :
    m.reduce position = .error (m.fault .noOperand position) := by
  obtain ⟨regex, marks, operands, afterOperand, openGroups⟩ := m
  cases hmarks
  match operands, hlength with
  | [], _ | [_], _ => rfl

/-- An alternation is refused if its run wants more operands than there are. -/
theorem reduce_alternation_short {n : Nat} {below : List Mark}
    (hmarks : m.marks = .alternation :: (List.replicate n .concatenation ++ below))
    (hbelow : below.head? ≠ some .concatenation) (hlength : m.operands.length < n + 2) :
    m.reduce position = .error (m.fault .noOperand position) := by
  obtain ⟨regex, marks, operands, afterOperand, openGroups⟩ := m
  cases hmarks
  match operands, hlength with
  | [], _ => rfl
  | right :: others, hlength =>
    show choose { Machine.mk regex [] [] afterOperand openGroups with
      marks := List.replicate n .concatenation ++ below
      operands := right :: others } position = _
    rw [choose_run _ n hbelow, if_pos (Nat.lt_of_succ_lt_succ hlength)]
    rfl

/-- A waiting mark is reduced, or there are not enough operands for all that wait. -/
theorem reduced_or_short (hlisted : ∀ a ∈ m.operands, a.states ≠ []) (hwaiting : m.waiting ≠ [])
    (position : Int) :
    (∃ m', Reduced m m') ∨ (m.operands.length ≤ m.waiting.length ∧
      m.reduce position = .error (m.fault .noOperand position)) := by
  obtain ⟨mark, own, hblock⟩ := List.exists_cons_of_ne_nil hwaiting
  have hmark : mark.isWaiting = true :=
    isWaiting_of_mem_waiting (by rw [hblock]; exact List.mem_cons_self)
  have hmarks : m.marks = mark :: (own ++ m.beyond) := by
    rw [← waiting_append_beyond, hblock, List.cons_append]
  cases mark with
  | concatenation =>
    by_cases hlength : 2 ≤ m.operands.length
    · exact .inl (exists_reduced_concatenation hmarks hlength hlisted)
    · refine .inr ⟨?_, reduce_concatenation_short hmarks (by omega)⟩
      rw [hblock, List.length_cons]
      omega
  | alternation =>
    obtain ⟨n, below, hrun, hbelow⟩ := exists_run (own ++ m.beyond)
    rw [hrun] at hmarks
    by_cases hlength : n + 2 ≤ m.operands.length
    · exact .inl (exists_reduced_alternation hmarks hbelow hlength hlisted)
    · refine .inr ⟨?_, reduce_alternation_short hmarks hbelow (by omega)⟩
      -- the run waits as well, so that the block is no shorter
      have hwaits : ∀ mark ∈ Mark.alternation :: List.replicate n .concatenation,
          mark.isWaiting = true := List.forall_mem_cons.mpr ⟨hmark, isWaiting_run n⟩
      rw [← List.cons_append] at hmarks
      rw [(split_marks hmarks hwaits).1, List.length_append, List.length_cons,
        List.length_replicate]
      omega
  | group | foreign => contradiction

/-- **One reduction.** As many operands go as marks, and one operand is left at least. So a want of
operands is neither made good nor brought about. -/
theorem supplied_iff_of_step (h : Step position m m') : m'.Supplied ↔ m.Supplied := by
  have hlength := (sameBase_of_step h).length_eq
  obtain ⟨hreduced, hhead⟩ := reduced_of_step h
  obtain ⟨run, used, rest, made, hmarks, hrun, hne, -, -, hmade⟩ :=
    exists_joined_of_reduced hreduced hhead
  have hwaiting : 0 < m.waiting.length := by
    rw [(split_marks hmarks hrun).1, List.length_append]
    exact Nat.add_pos_left (List.length_pos_of_ne_nil hne) _
  have hoperands : 0 < m'.operands.length := by
    rw [hmade]
    exact Nat.succ_pos _
  rw [Supplied, Supplied, ← List.length_eq_zero_iff, ← List.length_eq_zero_iff]
  omega

/-! ## The whole block -/

/-- With operands enough, all waiting marks are reduced; if no mark waits, nothing is. -/
theorem exists_steps_of_supplied (position : Int) (hlisted : ∀ a ∈ m.operands, a.states ≠ [])
    (hsupplied : m.Supplied) :
    ∃ mid, Relation.ReflTransGen (Step position) m mid ∧ mid.waiting = [] ∧
      (m.waiting = [] → mid = m) := by
  induction m using closeGroup.induct position with
  | case1 m hnil => exact ⟨m, .refl, by rw [waiting, hnil]; rfl, fun _ => rfl⟩
  | case2 m below hmarks => exact ⟨m, .refl, by rw [waiting, hmarks]; rfl, fun _ => rfl⟩
  | case3 m mark below hmarks hne ih =>
    by_cases hwaiting : m.waiting = []
    · exact ⟨m, .refl, hwaiting, fun _ => rfl⟩
    · rcases reduced_or_short hlisted hwaiting position with ⟨next, hreduced⟩ | ⟨hshort, -⟩
      · -- one mark, or a run, has gone, and there are operands enough for the rest
        have hreduce := reduce_of_reduced hreduced position
        have hstep := step_of_reduce hmarks hne hreduce
        obtain ⟨mid, hsteps, hmid, -⟩ := ih next hreduce (listed_of_reduced hreduced hlisted)
          ((supplied_iff_of_step hstep).mpr hsupplied)
        exact ⟨mid, hsteps.head hstep, hmid, fun h => absurd h hwaiting⟩
      · rcases hsupplied with h | h
        · exact absurd h hwaiting
        · exact absurd h (Nat.not_lt.mpr hshort)

/-- With too few operands, a mark is reached that wants one. -/
theorem result_closeGroup_of_short (position : Int) (hlisted : ∀ a ∈ m.operands, a.states ≠ [])
    (hshort : ¬ m.Supplied) :
    (m.closeGroup position).result = .error (m.fault .noOperand position) := by
  induction m using closeGroup.induct position with
  | case1 m hnil => exact absurd (.inl (by rw [waiting, hnil]; rfl)) hshort
  | case2 m below hmarks => exact absurd (.inl (by rw [waiting, hmarks]; rfl)) hshort
  | case3 m mark below hmarks hne ih =>
    have hwaiting : m.waiting ≠ [] := fun h => hshort (.inl h)
    rw [result_closeGroup_cons hmarks hne]
    rcases reduced_or_short hlisted hwaiting position with ⟨next, hreduced⟩ | ⟨-, herror⟩
    · -- this mark had its operands, but the want is left to the marks below
      have hreduce := reduce_of_reduced hreduced position
      have hstep := step_of_reduce hmarks hne hreduce
      have hregex : next.regex = m.regex := by rw [(sameBase_of_step hstep).stacks_only]
      rw [hreduce]
      refine (ih next hreduce (listed_of_reduced hreduced hlisted)
        (fun h => hshort ((supplied_iff_of_step hstep).mp h))).trans ?_
      rw [fault, fault, hregex]
    · rw [herror]
      rfl

/-! ## The endings -/

/-- What closing a group can end with. -/
inductive ClosingEnds (m : Machine) (position : Int) : Except Fault Machine → Prop where
  /-- A waiting mark wants an operand. -/
  | short (hshort : ¬ m.Supplied) : ClosingEnds m position (.error (m.fault .noOperand position))
  /-- All marks waited, and there is none left to be the mark of the group. -/
  | bottom (hsupplied : m.Supplied) (hbeyond : m.beyond = []) :
      ClosingEnds m position (.error .emptySequence)
  /-- There is a mark in front of that of the group that is none of a regex. -/
  | foreign {text : String} {below : List Mark} (hsupplied : m.Supplied)
      (hbeyond : m.beyond = .foreign text :: below) :
      ClosingEnds m position (.error (.unsupportedOperator text))
  /-- The mark of the group is taken off. One operand stands for those of the group. -/
  | closed {below : List Mark} {operands : List Automaton} (hsupplied : m.Supplied)
      (hbeyond : m.beyond = .group :: below)
      (hlength : operands.length + m.waiting.length = m.operands.length)
      (htail : operands.tail = m.untouched) (hidle : m.waiting = [] → operands = m.operands) :
      ClosingEnds m position (.ok { m with marks := below, operands := operands })

/-- **The endings of closing a group.** Which one it is can be told from the stacks. -/
theorem ends_closeGroup (position : Int) (hlisted : ∀ a ∈ m.operands, a.states ≠ []) :
    ClosingEnds m position (m.closeGroup position).result := by
  by_cases hsupplied : m.Supplied
  · obtain ⟨mid, hsteps, hmid, hidle⟩ := exists_steps_of_supplied position hlisted hsupplied
    have hbase := sameBase_of_steps hsteps
    have hmarks : mid.marks = m.beyond := by
      rw [← hbase.beyond_eq, ← mid.waiting_append_beyond, hmid, List.nil_append]
    rw [result_closeGroup_of_steps hsteps]
    cases hbeyond : m.beyond with
    | nil =>
      rw [closeGroup_of_nil (hmarks.trans hbeyond)]
      exact .bottom hsupplied hbeyond
    | cons mark below =>
      rw [hbeyond] at hmarks
      cases mark with
      | concatenation | alternation =>
        -- no waiting mark is left on top
        rw [waiting, hmarks] at hmid
        contradiction
      | group =>
        have hclosed : { mid with marks := below }
            = { m with marks := below, operands := mid.operands } := by
          rw [hbase.stacks_only]
        have hlength := hbase.length_eq
        have htail := hbase.untouched_eq
        rw [hmid, List.length_nil, Nat.add_zero] at hlength
        rw [untouched, hmid, List.length_nil, Nat.zero_add, List.drop_one] at htail
        rw [closeGroup_of_group hmarks, hclosed]
        exact .closed hsupplied hbeyond hlength htail fun h => by rw [hidle h]
      | foreign text =>
        have hreduce : mid.reduce position = .error (.unsupportedOperator text) := by
          rw [reduce, hmarks]
        rw [result_closeGroup_cons hmarks (by simp), hreduce]
        exact .foreign hsupplied hbeyond
  · rw [result_closeGroup_of_short position hlisted hsupplied]
    exact .short hsupplied

namespace ClosingEnds

variable {result : Except Fault Machine} {below : List Mark}

theorem exists_eq_ok_iff (h : ClosingEnds m position result) :
    (∃ m', result = .ok m') ↔ m.Supplied ∧ ∃ below, m.beyond = .group :: below := by
  constructor
  · intro hok
    obtain ⟨m', rfl⟩ := hok
    cases h with
    | closed hsupplied hbeyond _ _ _ => exact ⟨hsupplied, _, hbeyond⟩
  · intro hclosable
    obtain ⟨hsupplied, below, hgroup⟩ := hclosable
    cases h with
    | short hshort => exact absurd hsupplied hshort
    | bottom _ hbeyond | foreign _ hbeyond =>
      rw [hgroup] at hbeyond
      cases hbeyond
    | closed _ _ _ _ _ => exact ⟨_, rfl⟩

theorem eq_of_group (h : ClosingEnds m position (.ok m')) (hgroup : m.beyond = .group :: below) :
    m' = { m with marks := below, operands := m'.operands } ∧
      m'.operands.length + m.waiting.length = m.operands.length ∧
      m'.operands.tail = m.untouched ∧ (m.waiting = [] → m'.operands = m.operands) := by
  cases h with
  | closed _ hbeyond hlength htail hidle =>
    rw [hbeyond] at hgroup
    cases hgroup
    exact ⟨rfl, hlength, htail, hidle⟩

theorem eq_of_bottom (h : ClosingEnds m position result) (hsupplied : m.Supplied)
    (hbottom : m.beyond = []) : result = .error .emptySequence := by
  cases h with
  | short hshort => exact absurd hsupplied hshort
  | bottom _ _ => rfl
  | foreign _ hbeyond | closed _ hbeyond _ _ _ =>
    rw [hbottom] at hbeyond
    contradiction

end ClosingEnds

/-! ## From any state -/

/-- The condition in terms of the whole stack of marks. -/
theorem closable_iff (m : Machine) :
    (m.Supplied ∧ ∃ below, m.beyond = .group :: below) ↔
      ∃ own below, m.marks = own ++ .group :: below ∧ (∀ mark ∈ own, mark.isWaiting = true) ∧
        (own = [] ∨ own.length + 1 ≤ m.operands.length) := by
  constructor
  · intro h
    obtain ⟨hsupplied, below, hbeyond⟩ := h
    refine ⟨m.waiting, below, ?_, fun _ => isWaiting_of_mem_waiting, hsupplied⟩
    rw [← hbeyond, waiting_append_beyond]
  · intro h
    obtain ⟨own, below, hmarks, hown, hcount⟩ := h
    obtain ⟨hwaiting, hbeyond⟩ := split_marks_group hmarks hown
    refine ⟨?_, below, hbeyond⟩
    rw [Supplied, hwaiting]
    exact hcount

/-- Behind an operand, and with a group counted as open, a closing parenthesis closes a group. -/
theorem perform_closing (hafter : m.afterOperand = true) (hopen : m.openGroups ≠ 0)
    (position : Int) :
    m.perform (.shift ")" position)
      = (closeGroup { m with openGroups := m.openGroups - 1 } position).result := by
  show (m.takeClosing position).result = _
  rw [takeClosing, if_neg hopen, hafter]
  rfl

/-- **Closing a group from any state.** Let a closing parenthesis come behind an operand, with some
group counted as open, and let the operands be built from texts; the stacks may be any otherwise.
The parenthesis is taken in iff there is a group mark, all marks above the topmost one wait for
operands, and there are more operands than such marks, or no such marks. Then the marks below the
group mark are left; for each mark above it there is an operand less, and all but the one on top are
as they were; one group less is counted as open, and nothing else is changed. If all marks wait, and
for operands that there are, the bottom of the stack is reached. -/
theorem closing_from_any_state (m : Machine) (position : Int) (hafter : m.afterOperand = true)
    (hopen : m.openGroups ≠ 0) (hbuilt : ∀ a ∈ m.operands, ∃ regex, build regex = .ok a) :
    ((∃ m', m.perform (.shift ")" position) = .ok m') ↔
      ∃ own below, m.marks = own ++ .group :: below ∧
        (∀ mark ∈ own, mark.isWaiting = true) ∧
        (own = [] ∨ own.length + 1 ≤ m.operands.length)) ∧
    (∀ own below m', m.marks = own ++ .group :: below →
      (∀ mark ∈ own, mark.isWaiting = true) → m.perform (.shift ")" position) = .ok m' →
      m' = { m with
        marks := below, operands := m'.operands, openGroups := m.openGroups - 1 } ∧
      m'.operands.length + own.length = m.operands.length ∧
      m'.operands.tail = m.operands.drop (own.length + 1) ∧
      (own = [] → m'.operands = m.operands)) ∧
    ((∀ mark ∈ m.marks, mark.isWaiting = true) →
      (m.marks = [] ∨ m.marks.length + 1 ≤ m.operands.length) →
      m.perform (.shift ")" position) = .error .emptySequence) := by
  have hlisted : ∀ a ∈ m.operands, a.states ≠ [] := by
    intro a ha
    obtain ⟨w, hw⟩ := hbuilt a ha
    exact (constructed_of_build hw).isFragment.states_ne_nil
  -- that a group less is counted as open changes nothing about the stacks
  have hends := ends_closeGroup (m := { m with openGroups := m.openGroups - 1 }) position hlisted
  rw [← perform_closing hafter hopen position] at hends
  refine ⟨hends.exists_eq_ok_iff.trans (closable_iff m), ?_, ?_⟩
  · intro own below m' hmarks hown hok
    obtain ⟨hwaiting, hbeyond⟩ := split_marks_group hmarks hown
    rw [hok] at hends
    rw [← hwaiting]
    exact hends.eq_of_group hbeyond
  · intro hall hcount
    obtain ⟨hwaiting, hbeyond⟩ := split_marks (List.append_nil m.marks).symm hall
    rw [List.takeWhile_nil, List.append_nil] at hwaiting
    have hsupplied : m.Supplied := by
      rw [Supplied, hwaiting]
      exact hcount
    exact hends.eq_of_bottom hsupplied hbeyond

/-- Stacks that no text leads to. The counter is negative, and a mark that is none of a regex lies
below the group; an alternation with a run below it takes three of four operands. With two operands
less the group is not closed, and without its mark the bottom is reached. -/
theorem closing_from_any_state_misfit :
    ∃ a b c d : Automaton, build "a" = .ok a ∧ build "b*" = .ok b ∧ build "c|E" = .ok c ∧
      build "(d" = .ok d ∧
      (∃ m' : Machine,
        perform ⟨"", [.alternation, .concatenation, .group, .foreign "?"], [d, c, b, a], true, -3⟩
          (.shift ")" 7) = .ok m' ∧
        m' = ⟨"", [.foreign "?"], m'.operands, true, -4⟩ ∧ m'.operands.length = 2 ∧
        m'.operands.tail = [a]) ∧
      (¬ ∃ m' : Machine,
        perform ⟨"", [.alternation, .concatenation, .group, .foreign "?"], [b, a], true, -3⟩
          (.shift ")" 7) = .ok m') ∧
      perform ⟨"", [.alternation, .concatenation], [c, b, a], true, -3⟩ (.shift ")" 7)
        = .error .emptySequence := by
  let letter (c : Char) (h : Symbol.isLiteral c = true) : Phrase .term :=
    .alone (.plain (.literal c h))
  obtain ⟨a, ha⟩ : ∃ a, build "a" = .ok a :=
    ⟨_, build_of_text (k := 0) (p := .only (letter 'a' rfl)) rfl⟩
  obtain ⟨b, hb⟩ : ∃ b, build "b*" = .ok b :=
    ⟨_, build_of_text (k := 0) (p := .only (letter 'b' rfl).starLast) rfl⟩
  obtain ⟨c, hc⟩ : ∃ c, build "c|E" = .ok c :=
    ⟨_, build_of_text (k := 0) (p := .either (letter 'c' rfl) (.only (letter 'E' rfl))) rfl⟩
  obtain ⟨d, hd⟩ : ∃ d, build "(d" = .ok d :=
    ⟨_, build_of_text (k := 1) (p := .only (.alone (.plain (.group (.only (letter 'd' rfl)))))) rfl⟩
  have htwo : ∀ x ∈ [b, a], ∃ regex, build regex = .ok x :=
    List.forall_mem_cons.mpr ⟨⟨_, hb⟩, List.forall_mem_singleton.mpr ⟨_, ha⟩⟩
  have hthree : ∀ x ∈ [c, b, a], ∃ regex, build regex = .ok x :=
    List.forall_mem_cons.mpr ⟨⟨_, hc⟩, htwo⟩
  have hopen : (-3 : Int) ≠ 0 := by decide
  have hown : ∀ mark ∈ [Mark.alternation, .concatenation], mark.isWaiting = true := by decide
  refine ⟨a, b, c, d, ha, hb, hc, hd, ?_, ?_, ?_⟩
  · obtain ⟨hiff, hclosed, -⟩ := closing_from_any_state
      ⟨"", [.alternation, .concatenation, .group, .foreign "?"], [d, c, b, a], true, -3⟩ 7 rfl
      hopen (List.forall_mem_cons.mpr ⟨⟨_, hd⟩, hthree⟩)
    obtain ⟨m', hm'⟩ := hiff.mpr ⟨_, [.foreign "?"], rfl, hown, .inr (Nat.le_succ 3)⟩
    obtain ⟨heq, hlength, htail, -⟩ := hclosed _ [.foreign "?"] m' rfl hown hm'
    exact ⟨m', hm', heq, Nat.add_right_cancel hlength, htail⟩
  · obtain ⟨hiff, -, -⟩ := closing_from_any_state
      ⟨"", [.alternation, .concatenation, .group, .foreign "?"], [b, a], true, -3⟩ 7 rfl
      hopen htwo
    intro hok
    rcases ((closable_iff _).mpr (hiff.mp hok)).1 with hnone | hlength
    · exact absurd hnone (List.cons_ne_nil _ _)
    · exact absurd hlength (Nat.lt_irrefl 2)
  · obtain ⟨-, -, hbottom⟩ := closing_from_any_state
      ⟨"", [.alternation, .concatenation], [c, b, a], true, -3⟩ 7 rfl hopen hthree
    exact hbottom hown (.inr (Nat.le_refl 3))

end Machine

end RegexAutomata
