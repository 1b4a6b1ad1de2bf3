import RegexAutomata.Proofs.Regex.Reduction

/-!
# What the stacks conserve

Whatever state the machine is in, also one that no text leads to, a step that is not refused
keeps two accounts. An operand is owed to every concatenation and alternation mark, and one
more while an operand has just ended: `Machine.surplus` is what the operands are worth beyond
that. A group that is counted as open has its mark: `Machine.uncounted` is the difference.

`Reduced` says all that taking a mark off can come to, and `Shifted` all that taking a token in
can come to, so that nothing after these two lemmas looks into the steps again. The run of
reductions behind a closing parenthesis appears in `Shifted` as a chain of `Step`s
(`exists_steps_of_closeGroup`), along which both accounts stand still.

Main results: `surplus_of_reduced`, `surplus_of_shifted`, `uncounted_of_shifted`.
-/

namespace RegexAutomata

/-- Every stack of marks begins with a run of concatenation marks, perhaps an empty one. -/
theorem exists_run (marks : List Mark) :
    ∃ n below, marks = List.replicate n .concatenation ++ below ∧
      below.head? ≠ some .concatenation := by
  induction marks with
  | nil => exact ⟨0, [], rfl, by simp⟩
  | cons mark marks ih =>
    by_cases hmark : mark = .concatenation
    · obtain ⟨n, below, rfl, hbelow⟩ := ih
      exact ⟨n + 1, below, by rw [hmark]; rfl, hbelow⟩
    · exact ⟨0, mark :: marks, rfl, fun h => hmark (Option.some.inj h)⟩

/-- A mark that waits for an operand on either side. -/
def Mark.isWaiting : Mark → Bool
  | .concatenation | .alternation => true
  | .group | .foreign _ => false

namespace Machine

/-! ## Taking a mark off -/

/-- What taking the top mark off can come to. -/
inductive Reduced (m : Machine) : Machine → Prop where
  /-- The two operands on top are joined. -/
  | concatenation {below : List Mark} {left right : Automaton} {rest : List Automaton}
      (hmarks : m.marks = .concatenation :: below)
      (hoperands : m.operands = right :: left :: rest) (hleft : left.states ≠ []) :
      Reduced m { m with marks := below, operands := left.append right :: rest }
  /-- A whole run of operands is joined and becomes an alternative of the operand on top. -/
  | alternation {n : Nat} {below : List Mark} {left right : Automaton}
      {chain rest : List Automaton}
      (hmarks : m.marks = .alternation :: (List.replicate n .concatenation ++ below))
      (hbelow : below.head? ≠ some .concatenation)
      (hoperands : m.operands = right :: (chain ++ rest)) (hchain : chain.length = n + 1)
      (hleft : Automaton.appendAll? chain.reverse = .ok left) :
      Reduced m { m with marks := below, operands := left.alternate right :: rest }
  /-- A group mark is dropped. -/
  | group {below : List Mark} (hmarks : m.marks = .group :: below) :
      Reduced m { m with marks := below }

variable {m m' : Machine} {position : Int}

theorem reduced_of_reduce (h : m.reduce position = .ok m') : Reduced m m' := by
  obtain ⟨regex, marks, operands, afterOperand, openGroups⟩ := m
  cases marks with
  | nil => contradiction
  | cons mark below =>
    cases mark with
    | concatenation =>
      match operands with
      | [] | [_] => contradiction
      | right :: left :: rest =>
        change (left.append? right).map _ = _ at h
        cases hjoin : left.append? right with
        | error fault =>
          rw [hjoin] at h
          contradiction
        | ok joined =>
          rw [hjoin] at h
          obtain ⟨hleft, rfl⟩ := Automaton.append?_eq_ok_iff.mp hjoin
          cases h
          exact .concatenation rfl rfl hleft
    | alternation =>
      match operands with
      | [] => contradiction
      | right :: others =>
        obtain ⟨n, below, rfl, hbelow⟩ := exists_run below
        change choose { Machine.mk regex [] [] afterOperand openGroups with
          marks := List.replicate n .concatenation ++ below
          operands := right :: others } position = _ at h
        rw [choose_run _ n hbelow] at h
        split at h
        · contradiction
        · next hlength =>
          cases hleft : Automaton.appendAll? (others.take (n + 1)).reverse with
          | error fault =>
            rw [hleft] at h
            contradiction
          | ok left =>
            rw [hleft] at h
            cases h
            refine .alternation rfl hbelow ?_ ?_ hleft
            · show right :: others = _
              rw [List.take_append_drop]
            · exact List.length_take_of_le (by omega)
    | group =>
      cases h
      exact .group rfl
    | foreign text => contradiction

/-- Each of the ways is taken: where a reduction has what it needs it is not refused. -/
theorem reduce_of_reduced (h : Reduced m m') (position : Int) : m.reduce position = .ok m' := by
  obtain ⟨regex, marks, operands, afterOperand, openGroups⟩ := m
  cases h with
  | concatenation hmarks hoperands hleft =>
    cases hmarks
    cases hoperands
    show (Automaton.append? _ _).map _ = _
    rw [Automaton.append?_eq_ok hleft]
    rfl
  | @alternation n below left right chain rest hmarks hbelow hoperands hchain hleft =>
    cases hmarks
    cases hoperands
    show choose { Machine.mk regex [] [] afterOperand openGroups with
      marks := List.replicate n .concatenation ++ below
      operands := right :: (chain ++ rest) } position = _
    rw [choose_run _ n hbelow, if_neg (by rw [List.length_append]; omega), ← hchain,
      List.take_left, List.drop_left, hleft]
    rfl
  | group hmarks =>
    cases hmarks
    rfl

/-! ## The accounts -/

/-- The operands that the stacks have to hold: one for each waiting mark, and the one that has
just ended. -/
def required (m : Machine) : Nat :=
  m.marks.countP Mark.isWaiting + (if m.afterOperand then 1 else 0)

/-- The operands beyond those that are required. -/
def surplus (m : Machine) : Int :=
  m.operands.length - m.required

/-- The groups counted as open beyond those that have a mark. -/
def uncounted (m : Machine) : Int :=
  m.openGroups - m.marks.count .group

/-- A mark that is taken off, and the run below it, cost as many operands as there are marks. -/
theorem surplus_of_reduced (h : Reduced m m') : m'.surplus = m.surplus := by
  unfold surplus required
  cases h with
  | concatenation hmarks hoperands _ =>
    simp only [hmarks, hoperands, List.countP_cons, Mark.isWaiting, List.length_cons, if_true]
    omega
  | alternation hmarks _ hoperands hchain _ =>
    simp only [hmarks, hoperands, List.countP_cons, List.countP_append, List.countP_replicate,
      Mark.isWaiting, List.length_cons, List.length_append, hchain, if_true]
    omega
  | group hmarks =>
    simp only [hmarks, List.countP_cons, Mark.isWaiting, Bool.false_eq_true, if_false, Nat.add_zero]

/-- A mark that is taken off touches neither the flag nor the counter. -/
theorem frame_of_reduced (h : Reduced m m') :
    m'.afterOperand = m.afterOperand ∧ m'.openGroups = m.openGroups := by
  cases h <;> exact ⟨rfl, rfl⟩

/-- No group mark is taken off from below another mark. -/
theorem count_group_of_reduced (h : Reduced m m') (hhead : m.marks.head? ≠ some .group) :
    m'.marks.count .group = m.marks.count .group := by
  cases h with
  | concatenation hmarks _ _ =>
    rw [hmarks, List.count_cons_of_ne (by decide)]
  | alternation hmarks _ _ _ _ =>
    rw [hmarks, List.count_cons_of_ne (by decide), List.count_append, List.count_replicate,
      if_neg (by decide), Nat.zero_add]
  | group hmarks => exact absurd (by rw [hmarks]; rfl) hhead

/-! ## Chains of reductions -/

theorem reduced_of_step (h : Step position m m') :
    Reduced m m' ∧ m.marks.head? ≠ some .group := by
  obtain ⟨mark, below, hmarks, hne, -, hreduce⟩ := h
  refine ⟨reduced_of_reduce hreduce, ?_⟩
  rw [hmarks]
  exact fun heq => hne (Option.some.inj heq)

theorem step_of_reduce {mark : Mark} {below : List Mark} (hmarks : m.marks = mark :: below)
    (hne : mark ≠ .group) (hreduce : m.reduce position = .ok m') : Step position m m' := by
  refine ⟨mark, below, hmarks, hne, ?_, hreduce⟩
  cases reduced_of_reduce hreduce with
  | concatenation _ hoperands _ =>
    rw [hoperands]
    exact List.cons_ne_nil _ _
  | alternation _ _ hoperands _ _ =>
    rw [hoperands]
    exact List.cons_ne_nil _ _
  | group hgroup =>
    rw [hgroup] at hmarks
    injection hmarks with htop
    exact absurd htop.symm hne

/-- Closing a group, where it is not refused, reduces to a group mark and takes it off. -/
theorem exists_steps_of_closeGroup (h : (m.closeGroup position).result = .ok m') :
    ∃ mid below, Relation.ReflTransGen (Step position) m mid ∧
      mid.marks = .group :: below ∧ m' = { mid with marks := below } := by
  induction m using closeGroup.induct position with
  | case1 m hnil =>
    rw [closeGroup_of_nil hnil] at h
    contradiction
  | case2 m below hmarks =>
    rw [closeGroup_of_group hmarks] at h
    cases h
    exact ⟨m, below, .refl, hmarks, rfl⟩
  | case3 m mark below hmarks hne ih =>
    rw [result_closeGroup_cons hmarks hne] at h
    cases hreduce : m.reduce position with
    | error fault =>
      rw [hreduce] at h
      contradiction
    | ok next =>
      rw [hreduce] at h
      obtain ⟨mid, under, hsteps, hmid, hm'⟩ := ih next hreduce h
      exact ⟨mid, under, hsteps.head (step_of_reduce hmarks hne hreduce), hmid, hm'⟩

/-- A chain of reductions by other marks than group marks keeps the accounts. -/
theorem accounts_of_steps (h : Relation.ReflTransGen (Step position) m m') :
    m'.surplus = m.surplus ∧ m'.uncounted = m.uncounted ∧ m'.afterOperand = m.afterOperand := by
  induction h with
  | refl => exact ⟨rfl, rfl, rfl⟩
  | tail _ hstep ih =>
    obtain ⟨hsurplus, huncounted, hafter⟩ := ih
    obtain ⟨hreduced, hhead⟩ := reduced_of_step hstep
    obtain ⟨hafter', hopen⟩ := frame_of_reduced hreduced
    refine ⟨(surplus_of_reduced hreduced).trans hsurplus, ?_, hafter'.trans hafter⟩
    rw [← huncounted, uncounted, uncounted, hopen, count_group_of_reduced hreduced hhead]

/-! ## Taking a token in -/

/-- What taking a token in can come to. -/
inductive Shifted (position : Int) (m : Machine) : Token → Machine → Prop where
  | literal (c : Char) : Shifted position m (.literal c) (m.takeLiteral c)
  | star {top : Automaton} {rest : List Automaton} (hafter : m.afterOperand = true)
      (hoperands : m.operands = top :: rest) :
      Shifted position m .star { m with operands := top.star :: rest }
  | bar (hafter : m.afterOperand = true) :
      Shifted position m .bar { m with marks := .alternation :: m.marks, afterOperand := false }
  | opening : Shifted position m .opening m.takeOpening
  /-- The group is reduced to its mark, which is taken off. -/
  | closing {mid : Machine} {below : List Mark} (hopen : m.openGroups ≠ 0)
      (hafter : m.afterOperand = true)
      (hsteps : Relation.ReflTransGen (Step position)
        { m with openGroups := m.openGroups - 1 } mid)
      (hmarks : mid.marks = .group :: below) :
      Shifted position m .closing { mid with marks := below }

theorem shifted_of_shift {token : Token} (h : (m.shift token position).result = .ok m') :
    Shifted position m token m' := by
  unfold shift at h
  rw [Logged.result_after] at h
  cases token with
  | literal c =>
    cases h
    exact .literal c
  | star =>
    simp only [takeStar, takeTop] at h
    split at h
    · contradiction
    · next hafter =>
      cases hoperands : m.operands with
      | nil =>
        rw [hoperands] at h
        contradiction
      | cons top rest =>
        rw [hoperands] at h
        cases h
        exact .star (by simpa using hafter) hoperands
  | bar =>
    simp only [takeBar] at h
    split at h
    · contradiction
    · next hafter =>
      cases h
      exact .bar (by simpa using hafter)
  | opening =>
    cases h
    exact .opening
  | closing =>
    simp only [takeClosing] at h
    split at h
    · contradiction
    · next hopen =>
      split at h
      · contradiction
      · next hafter =>
        obtain ⟨mid, below, hsteps, hmarks, rfl⟩ := exists_steps_of_closeGroup h
        exact .closing hopen (by simpa using hafter) hsteps hmarks
  | foreign text => contradiction

/-- A mark is put in front of an operand exactly when there is an operand to join it to. -/
theorem countP_marksBeforeOperand (m : Machine) :
    m.marksBeforeOperand.countP Mark.isWaiting = m.required := by
  unfold marksBeforeOperand required
  split
  · exact List.countP_cons_of_pos rfl
  · rfl

theorem count_group_marksBeforeOperand (m : Machine) :
    m.marksBeforeOperand.count .group = m.marks.count .group := by
  unfold marksBeforeOperand
  split
  · exact List.count_cons_of_ne (by decide)
  · rfl

/-- **No token changes what the operands are worth beyond the marks.** -/
theorem surplus_of_shifted {token : Token} (h : Shifted position m token m') :
    m'.surplus = m.surplus := by
  cases h with
  | literal c =>
    have hmarks := m.countP_marksBeforeOperand
    simp only [surplus, required, takeLiteral, List.length_cons, if_true] at hmarks ⊢
    omega
  | star _ hoperands => simp only [surplus, required, hoperands, List.length_cons]
  | bar hafter =>
    simp only [surplus, required, hafter, List.countP_cons, Mark.isWaiting, if_true,
      Bool.false_eq_true, if_false, Nat.add_zero]
  | opening =>
    have hmarks := m.countP_marksBeforeOperand
    simp only [surplus, required, takeOpening, List.countP_cons, Mark.isWaiting,
      Bool.false_eq_true, if_false, Nat.add_zero] at hmarks ⊢
    omega
  | closing _ _ hsteps hmarks =>
    obtain ⟨hsurplus, -, -⟩ := accounts_of_steps hsteps
    exact (surplus_of_reduced (.group hmarks)).trans hsurplus

/-- **Parentheses are counted as their marks come and go.** -/
theorem uncounted_of_shifted {token : Token} (h : Shifted position m token m') :
    m'.uncounted = m.uncounted := by
  cases h with
  | literal c => simp only [uncounted, takeLiteral, count_group_marksBeforeOperand]
  | star _ _ => rfl
  | bar _ => simp only [uncounted, List.count_cons_of_ne (show Mark.alternation ≠ .group by decide)]
  | opening =>
    simp only [uncounted, takeOpening, List.count_cons_self, count_group_marksBeforeOperand]
    omega
  | closing _ _ hsteps hmarks =>
    -- the counter goes down first, and the mark of the group is taken off at last
    obtain ⟨-, huncounted, -⟩ := accounts_of_steps hsteps
    simp only [uncounted, hmarks, List.count_cons_self] at huncounted ⊢
    omega

end Machine

end RegexAutomata
