import RegexAutomata.Proofs.Regex.Conservation
import RegexAutomata.Proofs.Regex.Reading

/-!
# The stacks fit together

The machine can be started with stacks that do not fit together, and then its reductions fail
in their own ways: operands run out, a mark is unknown, a group has no mark. No text leads
there. Between any two characters of a text the stacks are `Balanced`: there is an operand for
each waiting mark and one for an operand that has just ended, each open group has its mark, and
no other marks are on the stack.

The invariant is kept for free: `Conservation` holds the accounts whatever the state. What is
left is progress. Behind an operand, balanced stacks have what the top mark needs
(`Fitting.exists_reduced`), and what is left fits together again, so that a group is closed
and the stacks are drained without a fault (`Fitting.exists_closeGroup`,
`Fitting.exists_drain`).

Main result: `build_faults`.
-/

namespace RegexAutomata

/-- The causes that lie in the way a text of symbols is put together. -/
def Cause.LiesInText : Cause → Prop
  | .nothingOpen | .emptyGroup | .nothingToRepeat | .missingLeft | .missingRight => True
  | .emptyRegex | .strayText _ | .noOperand | .marksLeft | .operandsLeft _ => False

/-- The faults that lie in the way a text of symbols is put together, not in the machine. -/
def Fault.LiesInText : Fault → Prop
  | .regex cause _ _ => cause.LiesInText
  | .symbolLength | .unsupportedOperator _ | .emptySequence => False

namespace Automaton

theorem states_append_ne_nil {l : Automaton} (h : l.states ≠ []) (r : Automaton) :
    (l.append r).states ≠ [] :=
  List.append_ne_nil_of_left_ne_nil h _

theorem states_numbered_ne_nil (n : Nat) : (numbered (n + 1)).states ≠ [] :=
  List.ne_nil_of_length_pos (by rw [← size, size_numbered]; exact Nat.succ_pos n)

theorem exists_foldlM_append? {first : Automaton} (h : first.states ≠ [])
    (others : List Automaton) : ∃ joined, others.foldlM append? first = .ok joined := by
  induction others generalizing first with
  | nil => exact ⟨first, rfl⟩
  | cons next others ih =>
    obtain ⟨joined, hjoined⟩ := ih (states_append_ne_nil h next)
    refine ⟨joined, ?_⟩
    show (first.append? next).bind (fun both => others.foldlM append? both) = _
    rw [append?_eq_ok h]
    exact hjoined

/-- Automata that have states can be put one behind the other. -/
theorem exists_appendAll? {automata : List Automaton} (hne : automata ≠ [])
    (h : ∀ a ∈ automata, a.states ≠ []) : ∃ joined, appendAll? automata = .ok joined := by
  match automata, hne with
  | first :: others, _ => exact exists_foldlM_append? (h first List.mem_cons_self) others

end Automaton

namespace Machine

/-- Stacks that fit together: as many operands as are required, marks of regexes only, and
operands that have states. -/
structure Fitting (m : Machine) : Prop where
  surplus_eq : m.surplus = 0
  marks_known : ∀ mark ∈ m.marks, mark = .group ∨ mark = .alternation ∨ mark = .concatenation
  operands_listed : ∀ a ∈ m.operands, a.states ≠ []

/-- Stacks that fit together, with a mark for each group that is counted as open. -/
structure Balanced (m : Machine) : Prop extends Fitting m where
  uncounted_eq : m.uncounted = 0

variable {m m' : Machine} {position : Int}

/-- A concatenation needs two operands. -/
theorem exists_reduced_concatenation {below : List Mark}
    (hmarks : m.marks = .concatenation :: below) (hlength : 2 ≤ m.operands.length)
    (hlisted : ∀ a ∈ m.operands, a.states ≠ []) : ∃ m', Reduced m m' := by
  match hoperands : m.operands with
  | [] | [_] =>
    rw [hoperands] at hlength
    simp only [List.length_cons, List.length_nil] at hlength
    omega
  | right :: left :: rest =>
    refine ⟨_, .concatenation hmarks hoperands (hlisted left ?_)⟩
    rw [hoperands]
    exact List.mem_cons_of_mem _ List.mem_cons_self

/-- An alternation needs two operands, and one more for each mark of the run below it. -/
theorem exists_reduced_alternation {n : Nat} {below : List Mark}
    (hmarks : m.marks = .alternation :: (List.replicate n .concatenation ++ below))
    (hbelow : below.head? ≠ some .concatenation) (hlength : n + 2 ≤ m.operands.length)
    (hlisted : ∀ a ∈ m.operands, a.states ≠ []) : ∃ m', Reduced m m' := by
  match hoperands : m.operands with
  | [] =>
    rw [hoperands, List.length_nil] at hlength
    omega
  | right :: others =>
    rw [hoperands, List.length_cons] at hlength
    have hchain : (others.take (n + 1)).length = n + 1 := List.length_take_of_le (by omega)
    have hne : (others.take (n + 1)).reverse ≠ [] := by
      refine List.ne_nil_of_length_pos ?_
      rw [List.length_reverse, hchain]
      exact Nat.succ_pos n
    have hall : ∀ a ∈ (others.take (n + 1)).reverse, a.states ≠ [] := by
      intro a ha
      refine hlisted a ?_
      rw [hoperands]
      exact List.mem_cons_of_mem _ (List.mem_of_mem_take (List.mem_reverse.mp ha))
    obtain ⟨left, hleft⟩ := Automaton.exists_appendAll? hne hall
    have hsplit : m.operands = right :: (others.take (n + 1) ++ others.drop (n + 1)) := by
      rw [List.take_append_drop]
      exact hoperands
    exact ⟨_, .alternation hmarks hbelow hsplit hchain hleft⟩

/-- What a reduction makes has states, as what it is made of has some. -/
theorem listed_of_reduced (h : Reduced m m') (hlisted : ∀ a ∈ m.operands, a.states ≠ []) :
    ∀ a ∈ m'.operands, a.states ≠ [] := by
  cases h with
  | concatenation _ hoperands hleft =>
    rw [hoperands, List.forall_mem_cons, List.forall_mem_cons] at hlisted
    exact List.forall_mem_cons.mpr ⟨Automaton.states_append_ne_nil hleft _, hlisted.2.2⟩
  | alternation _ _ hoperands _ _ =>
    rw [hoperands, List.forall_mem_cons, List.forall_mem_append] at hlisted
    exact List.forall_mem_cons.mpr ⟨Automaton.states_numbered_ne_nil _, hlisted.2.2⟩
  | group _ => exact hlisted

namespace Fitting

theorem length_operands (h : m.Fitting) : m.operands.length = m.required := by
  have hsurplus := h.surplus_eq
  rw [surplus] at hsurplus
  omega

/-- **Progress.** Behind an operand every mark finds the operands it needs. -/
theorem exists_reduced (h : m.Fitting) (hafter : m.afterOperand = true) (hmarks : m.marks ≠ []) :
    ∃ m', Reduced m m' := by
  obtain ⟨mark, below, hcons⟩ := List.exists_cons_of_ne_nil hmarks
  have hlength := h.length_operands
  rw [required, if_pos hafter, hcons] at hlength
  rcases h.marks_known mark (by rw [hcons]; exact List.mem_cons_self) with rfl | rfl | rfl
  · exact ⟨_, .group hcons⟩
  · obtain ⟨n, under, rfl, hunder⟩ := exists_run below
    simp only [List.countP_cons, List.countP_append, List.countP_replicate, Mark.isWaiting,
      if_true] at hlength
    exact exists_reduced_alternation hcons hunder (by omega) h.operands_listed
  · rw [List.countP_cons_of_pos rfl] at hlength
    exact exists_reduced_concatenation hcons (by omega) h.operands_listed

/-- What a reduction leaves fits together again. -/
theorem reduced (h : m.Fitting) (hreduced : Reduced m m') : m'.Fitting := by
  have hknown := h.marks_known
  refine ⟨(surplus_of_reduced hreduced).trans h.surplus_eq, ?_,
    listed_of_reduced hreduced h.operands_listed⟩
  cases hreduced with
  | concatenation hmarks _ _ =>
    rw [hmarks, List.forall_mem_cons] at hknown
    exact hknown.2
  | alternation hmarks _ _ _ _ =>
    rw [hmarks, List.forall_mem_cons, List.forall_mem_append] at hknown
    exact hknown.2.2
  | group hmarks =>
    rw [hmarks, List.forall_mem_cons] at hknown
    exact hknown.2

/-- The counter of open groups plays no part in how the stacks fit together. -/
theorem recount (h : m.Fitting) (openGroups : Int) :
    Fitting { m with openGroups := openGroups } :=
  ⟨h.surplus_eq, h.marks_known, h.operands_listed⟩

/-- The marks in front of an operand are those there were, and a concatenation mark at most. -/
theorem marksBeforeOperand_known (h : m.Fitting) :
    ∀ mark ∈ m.marksBeforeOperand, mark = .group ∨ mark = .alternation ∨ mark = .concatenation := by
  unfold marksBeforeOperand
  split
  · exact List.forall_mem_cons.mpr ⟨.inr (.inr rfl), h.marks_known⟩
  · exact h.marks_known

theorem steps (h : m.Fitting) (hsteps : Relation.ReflTransGen (Step position) m m') :
    m'.Fitting := by
  induction hsteps with
  | refl => exact h
  | tail _ hstep ih => exact ih.reduced (reduced_of_step hstep).1

/-- A group that has a mark is closed. -/
theorem exists_closeGroup (h : m.Fitting) (position : Int) (hafter : m.afterOperand = true)
    (hgroup : .group ∈ m.marks) : ∃ m', (m.closeGroup position).result = .ok m' := by
  induction m using closeGroup.induct position with
  | case1 m hnil =>
    rw [hnil] at hgroup
    exact absurd hgroup List.not_mem_nil
  | case2 m below hmarks => exact ⟨_, closeGroup_of_group hmarks⟩
  | case3 m mark below hmarks hne ih =>
    obtain ⟨next, hreduced⟩ :=
      h.exists_reduced hafter (by rw [hmarks]; exact List.cons_ne_nil _ _)
    have hreduce := reduce_of_reduced hreduced position
    -- the mark of the group is still there, as another mark was on top
    have hcount : next.marks.count .group = m.marks.count .group := by
      refine count_group_of_reduced hreduced ?_
      rw [hmarks]
      exact fun heq => hne (Option.some.inj heq)
    have hmem : .group ∈ next.marks := by
      rw [← List.count_pos_iff, hcount, List.count_pos_iff]
      exact hgroup
    rw [result_closeGroup_cons hmarks hne, hreduce]
    exact ih next hreduce (h.reduced hreduced) ((frame_of_reduced hreduced).1.trans hafter) hmem

/-- Behind an operand the stacks are drained, and one operand is left. -/
theorem exists_drain (h : m.Fitting) (position : Int) (hafter : m.afterOperand = true) :
    ∃ m' a, (m.drain position).result = .ok m' ∧ m'.operands = [a] := by
  induction m using drain.induct position with
  | case1 m hnil =>
    have hlength := h.length_operands
    rw [required, if_pos hafter, hnil] at hlength
    obtain ⟨a, ha⟩ := List.length_eq_one_iff.mp hlength
    exact ⟨m, a, drain_of_nil hnil, ha⟩
  | case2 m mark below hmarks hempty =>
    have hlength := h.length_operands
    rw [required, if_pos hafter, List.isEmpty_iff.mp hempty, List.length_nil] at hlength
    omega
  | case3 m mark below hmarks hempty ih =>
    obtain ⟨next, hreduced⟩ :=
      h.exists_reduced hafter (by rw [hmarks]; exact List.cons_ne_nil _ _)
    have hreduce := reduce_of_reduced hreduced position
    rw [result_drain_cons hmarks (by simpa using hempty), hreduce]
    exact ih next hreduce (h.reduced hreduced) ((frame_of_reduced hreduced).1.trans hafter)

/-- What has been read up to the end of an operand is finished. -/
theorem exists_finish (h : m.Fitting) (position : Int) (hafter : m.afterOperand = true) :
    ∃ a, (m.finish position).result = .ok a := by
  obtain ⟨drained, a, hdrain, ha⟩ := h.exists_drain position hafter
  refine ⟨a, ?_⟩
  rw [finish, hafter]
  show Logged.result (Logged.andThen _ _) = _
  rw [Logged.result_andThen, hdrain]
  simp only [Except.bind, takeTop, ha]
  rfl

end Fitting

namespace Balanced

theorem openGroups_eq (h : m.Balanced) : m.openGroups = m.marks.count .group := by
  have huncounted := h.uncounted_eq
  rw [uncounted] at huncounted
  omega

/-- **One token.** Whatever is taken in, the stacks stay balanced. -/
theorem shifted (h : m.Balanced) {token : Token} (hshifted : Shifted position m token m') :
    m'.Balanced := by
  have hsurplus := (surplus_of_shifted hshifted).trans h.surplus_eq
  have huncounted := (uncounted_of_shifted hshifted).trans h.uncounted_eq
  cases hshifted with
  | literal c =>
    refine ⟨⟨hsurplus, h.marksBeforeOperand_known, ?_⟩, huncounted⟩
    exact List.forall_mem_cons.mpr ⟨List.cons_ne_nil _ _, h.operands_listed⟩
  | star _ hoperands =>
    have hlisted := h.operands_listed
    rw [hoperands, List.forall_mem_cons] at hlisted
    refine ⟨⟨hsurplus, h.marks_known, ?_⟩, huncounted⟩
    exact List.forall_mem_cons.mpr ⟨Automaton.states_numbered_ne_nil _, hlisted.2⟩
  | bar _ =>
    refine ⟨⟨hsurplus, ?_, h.operands_listed⟩, huncounted⟩
    exact List.forall_mem_cons.mpr ⟨.inr (.inl rfl), h.marks_known⟩
  | opening =>
    refine ⟨⟨hsurplus, ?_, h.operands_listed⟩, huncounted⟩
    exact List.forall_mem_cons.mpr ⟨.inl rfl, h.marksBeforeOperand_known⟩
  | closing _ _ hsteps hmarks =>
    have hmid := (h.recount (m.openGroups - 1)).steps hsteps
    exact ⟨hmid.reduced (.group hmarks), huncounted⟩

/-- A token of a regex that is not taken in is a fault of the text. -/
theorem liesInText_of_shift (h : m.Balanced) {token : Token}
    (htoken : ∀ text, token ≠ .foreign text) {fault : Fault}
    (herror : (m.shift token position).result = .error fault) : fault.LiesInText := by
  unfold shift at herror
  rw [Logged.result_after] at herror
  cases token with
  | literal c => contradiction
  | star =>
    simp only [takeStar, takeTop] at herror
    split at herror
    · cases herror
      trivial
    · next hafter =>
      -- behind an operand there is one
      have hlength := h.length_operands
      rw [required, if_pos (by simpa using hafter)] at hlength
      cases hoperands : m.operands with
      | nil =>
        rw [hoperands, List.length_nil] at hlength
        omega
      | cons top rest =>
        rw [hoperands] at herror
        contradiction
  | bar =>
    simp only [takeBar] at herror
    split at herror
    · cases herror
      trivial
    · contradiction
  | opening => contradiction
  | closing =>
    simp only [takeClosing] at herror
    split at herror
    · cases herror
      trivial
    · next hopen =>
      split at herror
      · cases herror
        trivial
      · next hafter =>
        -- a group that is counted as open has its mark, and is closed
        have hgroup : .group ∈ m.marks := by
          rw [← List.count_pos_iff]
          have hcount := h.openGroups_eq
          omega
        obtain ⟨closed, hclosed⟩ := (h.recount (m.openGroups - 1)).exists_closeGroup position
          (by simpa using hafter) hgroup
        rw [hclosed] at herror
        contradiction
  | foreign text => exact absurd rfl (htoken text)

/-- **A whole text.** Between any two characters the stacks are balanced. -/
theorem scan (cs : List Char) : ∀ {m : Machine} (position : Nat), m.Balanced →
    ∀ m', (m.scan position cs).result = .ok m' → m'.Balanced := by
  induction cs with
  | nil =>
    intro m position h m' hscan
    cases hscan
    exact h
  | cons c cs ih =>
    intro m position h m' hscan
    rw [Machine.scan, Logged.result_andThen] at hscan
    cases hshift : (m.shift (.ofChar c) position).result with
    | error fault =>
      rw [hshift] at hscan
      contradiction
    | ok next =>
      rw [hshift] at hscan
      exact ih (position + 1) (h.shifted (shifted_of_shift hshift)) m' hscan

theorem liesInText_of_scan (cs : List Char) (hknown : ∀ c ∈ cs, Symbol.isKnown c = true) :
    ∀ {m : Machine} (position : Nat), m.Balanced →
      ∀ fault, (m.scan position cs).result = .error fault → fault.LiesInText := by
  induction cs with
  | nil =>
    intro m position h fault hscan
    cases hscan
  | cons c cs ih =>
    rw [List.forall_mem_cons] at hknown
    intro m position h fault hscan
    rw [Machine.scan, Logged.result_andThen] at hscan
    cases hshift : (m.shift (.ofChar c) position).result with
    | error cause =>
      rw [hshift] at hscan
      cases hscan
      exact h.liesInText_of_shift (Token.ofChar_ne_foreign hknown.1) hshift
    | ok next =>
      rw [hshift] at hscan
      exact ih hknown.2 (position + 1) (h.shifted (shifted_of_shift hshift)) fault hscan

/-- What has been read is finished, unless an operand is due. -/
theorem liesInText_of_finish (h : m.Balanced) {fault : Fault}
    (hfinish : (m.finish position).result = .error fault) : fault.LiesInText := by
  cases hafter : m.afterOperand with
  | false =>
    rw [finish, hafter] at hfinish
    cases hfinish
    trivial
  | true =>
    obtain ⟨a, ha⟩ := h.exists_finish position hafter
    rw [ha] at hfinish
    contradiction

end Balanced

theorem balanced_start (regex : String) : (start regex).Balanced := by
  refine ⟨⟨rfl, ?_, ?_⟩, rfl⟩
  · intro mark hmark
    exact absurd hmark List.not_mem_nil
  · intro a ha
    exact absurd ha List.not_mem_nil

end Machine

/-- **No fault of the machine.** However a text is built, between any two of its characters
there are as many operands as the waiting marks and a finished operand ask for, as many group
marks as open groups, and no other marks than those of regexes. So what building is refused for
is in the text: there is nothing to be read, or a character that is no symbol, which is noticed
before anything is read, or the symbols are not put together as a regex. Operands never run out,
none are left over, no mark is unknown or missing. -/
theorem build_faults (w : String) :
    (∀ (i : Nat) (m : Machine),
      ((Machine.start w).scan 0 (w.toList.take i)).result = .ok m →
        m.operands.length
            = m.marks.countP Mark.isWaiting + (if m.afterOperand then 1 else 0) ∧
          m.openGroups = m.marks.count .group ∧
          ∀ mark ∈ m.marks, mark = .group ∨ mark = .alternation ∨ mark = .concatenation) ∧
    ∀ fault, build w = .error fault →
      (w = "" ∧ fault = .regex .emptyRegex "" 0) ∨
      (∃ index stray, firstStray w.toList = some (index, stray) ∧
        fault = .regex (.strayText (String.singleton stray)) w index) ∨
      (firstStray w.toList = none ∧ fault.LiesInText) := by
  constructor
  · intro i m hscan
    have hbalanced := Machine.Balanced.scan _ 0 (Machine.balanced_start w) m hscan
    exact ⟨hbalanced.length_operands, hbalanced.openGroups_eq, hbalanced.marks_known⟩
  · intro fault hfault
    by_cases hne : w = ""
    · subst hne
      cases hfault
      exact .inl ⟨rfl, rfl⟩
    · refine .inr ?_
      cases hstray : firstStray w.toList with
      | some found =>
        obtain ⟨index, stray⟩ := found
        rw [build_of_stray hne hstray] at hfault
        cases hfault
        exact .inl ⟨index, stray, rfl, rfl⟩
      | none =>
        have hknown := (firstStray_eq_none_iff _).mp hstray
        refine .inr ⟨rfl, ?_⟩
        rw [build_of_known hne hknown] at hfault
        cases hscan : ((Machine.start w).scan 0 w.toList).result with
        | error cause =>
          rw [hscan] at hfault
          cases hfault
          exact Machine.Balanced.liesInText_of_scan _ hknown 0 (Machine.balanced_start w) _ hscan
        | ok m =>
          rw [hscan] at hfault
          have hbalanced := Machine.Balanced.scan _ 0 (Machine.balanced_start w) m hscan
          exact hbalanced.liesInText_of_finish hfault

end RegexAutomata
