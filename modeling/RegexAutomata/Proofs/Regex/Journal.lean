import Mathlib.Algebra.GroupWithZero.Nat
import RegexAutomata.Proofs.Regex.Records
import RegexAutomata.Proofs.Regex.Recognition

/-!
# What the journal says of the marks

Not every mark that is taken off is recorded. The mark of a group that is closed is not, and an
alternation mark takes the run of concatenation marks below it off in silence. So what becomes of
a stack shows in the marks alone, top first: `recorded`. Closing a group, where it is not refused,
records what lies above the mark of the group (`recorded_closeGroup`), and draining records the
whole stack (`reductions_drain`).

For the stacks of a draft this comes to the concatenations of the last alternative of a group and
a mark for each of its bars (`Layer.recorded_marks`). Every bar is therefore recorded once, when
its group ends. A concatenation is recorded if its alternative is the last of its group, and the
groups that have ended are those of the phrases in the draft: `Draft.joins` counts with them.
`Draft.Accounts` says both of what is recorded between two drafts; it holds of one character, so
of a whole text.

Main result: `journal_account`.
-/

namespace RegexAutomata

/-! ## Which marks are recorded -/

/-- The marks of a stack that are recorded when all of it is taken off. In a run that an
alternation mark takes with it, concatenation marks are passed over. -/
def recorded (folding : Bool) : List Mark → List Mark
  | [] => []
  | .concatenation :: below =>
    if folding then recorded true below else .concatenation :: recorded false below
  | .alternation :: below => .alternation :: recorded true below
  | mark :: below => mark :: recorded false below

theorem recorded_run (n : Nat) (below : List Mark) :
    recorded false (List.replicate n .concatenation ++ below)
      = List.replicate n .concatenation ++ recorded false below := by
  induction n with
  | zero => rfl
  | succ n ih => exact congrArg (Mark.concatenation :: ·) ih

/-- A run below an alternation mark is passed over, up to its end. -/
theorem recorded_folding (n : Nat) {below : List Mark} (h : below.head? ≠ some .concatenation) :
    recorded true (List.replicate n .concatenation ++ below) = recorded false below := by
  induction n with
  | zero =>
    match below with
    | [] => rfl
    | .concatenation :: _ => exact absurd rfl h
    | .alternation :: _ | .group :: _ | .foreign _ :: _ => rfl
  | succ n ih => exact ih

namespace Machine

variable {m m' : Machine} {position : Int}

/-- A reduction records the mark on top, and what is left is recorded as before. -/
theorem recorded_of_reduced (h : Reduced m m') {mark : Mark} {below : List Mark}
    (hmarks : m.marks = mark :: below) :
    recorded false m.marks = mark :: recorded false m'.marks := by
  cases h with
  | concatenation htop _ _ =>
    rw [htop] at hmarks ⊢
    cases hmarks
    rfl
  | @alternation n _ _ _ _ _ htop hbelow _ _ _ =>
    rw [htop] at hmarks ⊢
    cases hmarks
    exact congrArg _ (recorded_folding n hbelow)
  | group htop =>
    rw [htop] at hmarks ⊢
    cases hmarks
    rfl

theorem closeGroup_cons {mark : Mark} {below : List Mark} (hmarks : m.marks = mark :: below)
    (hne : mark ≠ .group) (hreduce : m.reduce position = .ok m') :
    m.closeGroup position
      = .after (.reduce mark m.operands.length) (m'.closeGroup position) := by
  rw [closeGroup]
  split
  · next hnil =>
    rw [hnil] at hmarks
    contradiction
  · next top rest hcons =>
    rw [hcons] at hmarks
    cases hmarks
    rw [if_neg hne]
    split
    · next hfault =>
      rw [hreduce] at hfault
      contradiction
    · next hnext =>
      rw [hreduce] at hnext
      cases hnext
      rfl

theorem drain_cons {mark : Mark} {below : List Mark} (hmarks : m.marks = mark :: below)
    (hoperands : m.operands.isEmpty = false) (hreduce : m.reduce position = .ok m') :
    m.drain position = .after (.reduce mark m.operands.length) (m'.drain position) := by
  rw [drain]
  split
  · next hnil =>
    rw [hnil] at hmarks
    contradiction
  · next top rest hcons =>
    rw [hcons] at hmarks
    cases hmarks
    rw [if_neg (by rw [hoperands]; decide)]
    split
    · next hfault =>
      rw [hreduce] at hfault
      contradiction
    · next hnext =>
      rw [hreduce] at hnext
      cases hnext
      rfl

/-- Closing a group records what lies above the mark of the group. -/
theorem recorded_closeGroup (h : (m.closeGroup position).result = .ok m') :
    recorded false m.marks
      = (m.closeGroup position).reductions ++ .group :: recorded false m'.marks := by
  induction m using closeGroup.induct position with
  | case1 m hnil =>
    rw [closeGroup_of_nil hnil] at h
    contradiction
  | case2 m below hmarks =>
    have hnone : (m.closeGroup position).reductions = [] := by
      rw [closeGroup]
      split
      · rfl
      · next hcons =>
        rw [hmarks] at hcons
        cases hcons
        rfl
    rw [closeGroup_of_group hmarks] at h
    cases h
    rw [hmarks, hnone]
    rfl
  | case3 m mark below hmarks hne ih =>
    rw [result_closeGroup_cons hmarks hne] at h
    cases hreduce : m.reduce position with
    | error fault =>
      rw [hreduce] at h
      contradiction
    | ok next =>
      rw [hreduce] at h
      rw [recorded_of_reduced (reduced_of_reduce hreduce) hmarks, ih next hreduce h,
        closeGroup_cons hmarks hne hreduce]
      rfl

/-- A parenthesis that is taken in closes a group. -/
theorem takeClosing_of_ok (h : (m.takeClosing position).result = .ok m') :
    m.takeClosing position
      = { m with openGroups := m.openGroups - 1 }.closeGroup position := by
  unfold takeClosing at h ⊢
  split
  · next hopen =>
    rw [if_pos hopen] at h
    contradiction
  · next hopen =>
    rw [if_neg hopen] at h
    split
    · next hafter =>
      rw [if_pos hafter] at h
      contradiction
    · rfl

/-- Draining records the whole stack. -/
theorem reductions_drain (h : (m.drain position).result = .ok m') :
    (m.drain position).reductions = recorded false m.marks := by
  induction m using drain.induct position with
  | case1 m hnil =>
    rw [drain, hnil]
    split
    · rfl
    · contradiction
  | case2 m mark below hmarks hempty =>
    rw [drain] at h
    split at h
    · next hnil =>
      rw [hnil] at hmarks
      contradiction
    · rw [if_pos hempty] at h
      contradiction
  | case3 m mark below hmarks hempty ih =>
    rw [result_drain_cons hmarks (by simpa using hempty)] at h
    cases hreduce : m.reduce position with
    | error fault =>
      rw [hreduce] at h
      contradiction
    | ok next =>
      rw [hreduce] at h
      rw [recorded_of_reduced (reduced_of_reduce hreduce) hmarks, ← ih next hreduce h,
        drain_cons hmarks (by simpa using hempty) hreduce]
      rfl

/-- Finishing records of the marks what draining does. -/
theorem reductions_finish (hafter : m.afterOperand = true)
    (h : (m.drain position).result = .ok m') :
    (m.finish position).reductions = recorded false m.marks := by
  rw [← reductions_drain h, finish, hafter]
  refine (Logged.view_andThen_of_ok Record.reduced? h _).trans ?_
  refine (congrArg _ ?_).trans (List.append_nil _)
  split
  · rfl
  · split <;> rfl

end Machine

/-! ## The marks of a draft -/

namespace Phrase

/-- The number of factors in the last alternative. A term is an alternative itself, and any
phrase below it is one factor. -/
def lastFactors {rank : Rank} : Phrase rank → Nat
  | .followed term _ => term.lastFactors + 1
  | .only term => term.lastFactors
  | .either _ others => others.lastFactors
  | _ => 1

/-- The regexes of all groups, also of groups in groups. -/
def groups {rank : Rank} : Phrase rank → List (Phrase .regex)
  | .literal _ _ => []
  | .group inner => inner :: inner.groups
  | .plain atom => atom.groups
  | .starred factor => factor.groups
  | .alone factor => factor.groups
  | .followed term factor => term.groups ++ factor.groups
  | .only term => term.groups
  | .either term others => term.groups ++ others.groups

/-- The places in the last alternative where two factors meet. -/
def lastJoins (p : Phrase .regex) : Nat :=
  p.lastFactors - 1

/-- The places where two factors meet in the last alternative of a group. -/
def groupJoins {rank : Rank} (p : Phrase rank) : Nat :=
  (p.groups.map lastJoins).sum

theorem lastFactors_eq (term : Phrase .term) :
    term.lastFactors = term.pendingMarks.length + 1 := by
  match term with
  | .alone factor => rfl
  | .followed term factor => exact congrArg (· + 1) (lastFactors_eq term)

theorem lastFactors_choice (finished : List (Phrase .term)) (others : Phrase .regex) :
    (choice finished others).lastFactors = others.lastFactors := by
  induction finished generalizing others with
  | nil => rfl
  | cons term before ih => exact ih (.either term others)

theorem groupJoins_followed (term : Phrase .term) (factor : Phrase .factor) :
    (followed term factor).groupJoins = term.groupJoins + factor.groupJoins := by
  unfold groupJoins
  rw [groups, List.map_append, List.sum_append]

theorem groupJoins_either (term : Phrase .term) (others : Phrase .regex) :
    (either term others).groupJoins = term.groupJoins + others.groupJoins := by
  unfold groupJoins
  rw [groups, List.map_append, List.sum_append]

theorem groupJoins_choice (finished : List (Phrase .term)) (others : Phrase .regex) :
    (choice finished others).groupJoins
      = (finished.map groupJoins).sum + others.groupJoins := by
  induction finished generalizing others with
  | nil => exact (Nat.zero_add _).symm
  | cons term before ih =>
    have hchoice : choice (term :: before) others = choice before (.either term others) := rfl
    rw [hchoice, ih, groupJoins_either, List.map_cons, List.sum_cons]
    omega

theorem groupJoins_starLast (term : Phrase .term) :
    term.starLast.groupJoins = term.groupJoins := by
  cases term <;> rfl

end Phrase

namespace Layer

/-- What is recorded of the marks of a group: the concatenations of the alternative under way, and
one mark for each bar. -/
def recordedMarks (l : Layer) : List Mark :=
  (match l.current with
    | none => []
    | some term => term.pendingMarks) ++ List.replicate l.finished.length .alternation

theorem recorded_finishedMarks (finished : List (Phrase .term)) {below : List Mark}
    (h : below.head? ≠ some .concatenation) :
    recorded false (finishedMarks finished ++ below)
      = List.replicate finished.length .alternation ++ recorded false below := by
  induction finished with
  | nil => rfl
  | cons term before ih =>
    have hhead : (finishedMarks before ++ below).head? ≠ some .concatenation := by
      cases before with
      | nil => exact h
      | cons _ _ => exact fun h => absurd h (by simp [finishedMarks])
    have hterm := recorded_folding term.pendingMarks.length hhead
    rw [← term.pendingMarks_eq_replicate, ih] at hterm
    rw [finishedMarks, List.flatMap_cons, ← finishedMarks, List.append_assoc]
    exact congrArg _ hterm

/-- **The marks of a group** are recorded so, if no concatenation mark is below them. -/
theorem recorded_marks (l : Layer) {below : List Mark}
    (h : below.head? ≠ some .concatenation) :
    recorded false (l.marks ++ below)
      = l.recordedMarks ++ recorded false below := by
  unfold marks recordedMarks
  rw [List.append_assoc]
  cases l.current with
  | none => exact recorded_finishedMarks l.finished h
  | some term =>
    have hterm := recorded_run term.pendingMarks.length (finishedMarks l.finished ++ below)
    rw [← term.pendingMarks_eq_replicate] at hterm
    rw [hterm, recorded_finishedMarks l.finished h, List.append_assoc]

/-- What has been counted of the groups in a group that is being read. -/
def joins (l : Layer) : Nat :=
  (l.finished.map Phrase.groupJoins).sum + (l.current.map Phrase.groupJoins).getD 0

theorem joins_push (l : Layer) (factor : Phrase .factor) :
    (l.push factor).joins = l.joins + factor.groupJoins := by
  unfold joins push extend
  cases l.current with
  | none => rfl
  | some term =>
    show _ + (Phrase.followed term factor).groupJoins = _ + term.groupJoins + _
    rw [Phrase.groupJoins_followed, Nat.add_assoc]

theorem count_recordedMarks (l : Layer) :
    l.recordedMarks.count .alternation = l.finished.length ∧
      l.recordedMarks.count .group = 0 := by
  have hpending : ∀ mark, mark ≠ Mark.concatenation → ∀ term : Phrase .term,
      term.pendingMarks.count mark = 0 := by
    intro mark hmark term
    rw [term.pendingMarks_eq_replicate, List.count_replicate]
    exact if_neg (by simpa using hmark.symm)
  unfold recordedMarks
  cases l.current with
  | none => simp [List.count_replicate]
  | some term => simp [List.count_replicate, hpending]

/-- When the group ends, its own last alternative is counted, too. -/
theorem joins_regex {l : Layer} {p : Phrase .regex} (hp : l.regex? = some p) :
    p.lastJoins = l.recordedMarks.count .concatenation ∧ p.groupJoins = l.joins := by
  obtain ⟨term, hterm, rfl⟩ := Option.map_eq_some_iff.mp hp
  constructor
  · have hfactors := term.lastFactors_eq
    have hpending : term.pendingMarks.count .concatenation = term.pendingMarks.length := by
      rw [term.pendingMarks_eq_replicate, List.count_replicate_self, List.length_replicate]
    unfold recordedMarks
    rw [hterm, List.count_append, hpending, Phrase.lastJoins, Phrase.lastFactors_choice,
      Phrase.lastFactors, hfactors]
    simp [List.count_replicate]
  · rw [Phrase.groupJoins_choice, joins, hterm]
    rfl

end Layer

namespace Draft

/-- The bars of the alternatives that have been finished in groups that are open. -/
def bars (d : Draft) : Nat :=
  d.inner.finished.length + (d.outer.map fun layer => layer.finished.length).sum

/-- The places where two factors meet in the last alternative of a group that has been closed. -/
def joins (d : Draft) : Nat :=
  d.inner.joins + (d.outer.map Layer.joins).sum

/-- A character records no marks, unless it closes a group. -/
theorem reductions_shift (regex : String) {d d' : Draft} {c : Char} (h : d.take c = .ok d')
    (position : Int) :
    ((d.machine regex).shift (.ofChar c) position).reductions
      = if c = ')' then d.inner.recordedMarks else [] := by
  have hresult := result_shift regex d position c
  rw [h] at hresult
  cases taken_of_take h with
  | literal hlit =>
    rw [Token.ofChar, if_pos hlit, if_neg (Symbol.ne_of_isLiteral hlit rfl)]
    rfl
  | star _ => rfl
  | bar _ => rfl
  | opening => rfl
  | @closing layer outer term houter hterm =>
    have hclose : ((d.machine regex).takeClosing position).result = outcome regex position
        (.ok ⟨layer.push (.plain (.group (.choice d.inner.finished (.only term)))), outer⟩) :=
      hresult
    have hgroup := Machine.takeClosing_of_ok hclose
    rw [hgroup] at hclose
    show ((d.machine regex).takeClosing position).reductions = d.inner.recordedMarks
    rw [hgroup]
    -- on either side the stack goes on below the mark of the group
    refine List.append_cancel_right ((Machine.recorded_closeGroup hclose).symm.trans ?_)
    show recorded false (d.inner.marks ++ outerMarks d.outer) = _
    rw [d.inner.recorded_marks (head?_outerMarks d.outer), houter, machine_push]
    rfl

/-- The marks that are recorded on the way from one draft to another account for the text between
them: a bar is recorded, or it stands in a group that is open; no group left open is recorded
yet; and the concatenations are those of the groups that have been closed on the way. -/
structure Accounts (taken : List Mark) (text : List Char) (d d' : Draft) : Prop where
  bars_eq : taken.count .alternation + d'.bars = d.bars + text.count '|'
  groups_eq : taken.count .group = 0
  joins_eq : taken.count .concatenation + d.joins = d'.joins

theorem Accounts.trans {taken taken' : List Mark} {text text' : List Char} {d d' d'' : Draft}
    (h : Accounts taken text d d') (h' : Accounts taken' text' d' d'') :
    Accounts (taken ++ taken') (text ++ text') d d'' := by
  obtain ⟨hbars, hgroups, hjoins⟩ := h
  obtain ⟨hbars', hgroups', hjoins'⟩ := h'
  constructor
  · rw [List.count_append, List.count_append]
    omega
  · rw [List.count_append, hgroups, hgroups']
  · rw [List.count_append]
    omega

/-- **One character** is accounted for. -/
theorem accounts_take (regex : String) {d d' : Draft} {c : Char} (h : d.take c = .ok d')
    (position : Int) :
    Accounts ((d.machine regex).shift (.ofChar c) position).reductions [c] d d' := by
  rw [reductions_shift regex h position]
  cases taken_of_take h with
  | literal hlit =>
    have hbar : [c].count '|' = 0 := by
      rw [List.count_cons_of_ne (Symbol.ne_of_isLiteral hlit rfl), List.count_nil]
    rw [if_neg (Symbol.ne_of_isLiteral hlit rfl)]
    refine ⟨?_, rfl, ?_⟩
    · rw [hbar]
      exact Nat.zero_add _
    · unfold joins
      rw [Layer.joins_push]
      exact Nat.zero_add _
  | @star term hterm =>
    refine ⟨Nat.zero_add _, rfl, ?_⟩
    unfold joins Layer.joins
    rw [hterm]
    show 0 + _ = _ + term.starLast.groupJoins + _
    rw [term.groupJoins_starLast]
    exact Nat.zero_add _
  | @bar term hterm =>
    refine ⟨?_, rfl, ?_⟩
    · show 0 + (d.inner.finished.length + 1 + (d.outer.map _).sum)
        = d.inner.finished.length + (d.outer.map _).sum + 1
      omega
    · unfold joins Layer.joins
      rw [hterm, List.map_cons, List.sum_cons]
      show 0 + (_ + term.groupJoins + _) = term.groupJoins + _ + 0 + (d.outer.map _).sum
      omega
  | opening =>
    refine ⟨?_, rfl, ?_⟩
    · unfold bars
      rw [List.map_cons, List.sum_cons]
      show 0 + (0 + _) = _ + 0
      omega
    · unfold joins
      rw [List.map_cons, List.sum_cons]
      rfl
  | @closing layer outer term houter hterm =>
    have hp : d.inner.regex? = some (.choice d.inner.finished (.only term)) := by
      rw [Layer.regex?, hterm]
      rfl
    obtain ⟨hlast, hinner⟩ := Layer.joins_regex hp
    obtain ⟨hbars, hgroups⟩ := d.inner.count_recordedMarks
    rw [if_pos rfl]
    refine ⟨?_, hgroups, ?_⟩
    · unfold bars
      rw [hbars, houter, List.map_cons, List.sum_cons]
      rfl
    · unfold joins
      -- the group is counted with the groups in it, which were counted before
      rw [← hlast, ← hinner, houter, Layer.joins_push, List.map_cons, List.sum_cons]
      show _ = layer.joins + (Phrase.lastJoins _ + Phrase.groupJoins _) + (outer.map _).sum
      omega

/-- **A whole text** is accounted for, as long as nothing is refused. -/
theorem accounts_read (regex : String) {cs : List Char} {d d' : Draft} (h : d.read cs = .ok d') :
    ∀ position : Nat,
      Accounts ((d.machine regex).scan position cs).reductions cs d d' := by
  induction h using read_induction with
  | nil => exact fun _ => ⟨Nat.zero_add _, rfl, Nat.zero_add _⟩
  | @cons d next c cs htake hread ih =>
    intro position
    have hshift := result_shift regex d position c
    rw [htake] at hshift
    have hreductions : ((d.machine regex).scan position (c :: cs)).reductions
        = ((d.machine regex).shift (.ofChar c) position).reductions
          ++ ((next.machine regex).scan (position + 1) cs).reductions :=
      Logged.view_andThen_of_ok _ hshift _
    rw [hreductions]
    exact (accounts_take regex htake position).trans (ih (position + 1))

/-- **The end.** Draining records the bars that are left, a mark for each group that is open, and
for the concatenations what the whole regex has beyond what was counted. -/
theorem accounts_marks (outer : List Layer) :
    ∀ {l : Layer} {p : Phrase .regex}, l.regex? = some p →
      let taken := recorded false (l.marks ++ outerMarks outer)
      taken.count .alternation = (Draft.mk l outer).bars ∧ taken.count .group = outer.length ∧
        taken.count .concatenation + (Draft.mk l outer).joins
          = (wrap p outer).lastJoins + (wrap p outer).groupJoins := by
  induction outer with
  | nil =>
    intro l p hp taken
    obtain ⟨hlast, hinner⟩ := Layer.joins_regex hp
    obtain ⟨hbars, hgroups⟩ := l.count_recordedMarks
    have htaken : taken = l.recordedMarks := by
      have hmarks := l.recorded_marks (head?_outerMarks [])
      exact hmarks.trans (List.append_nil _)
    rw [htaken]
    refine ⟨hbars, hgroups, ?_⟩
    rw [← hlast]
    show p.lastJoins + l.joins = p.lastJoins + p.groupJoins
    rw [hinner]
  | cons layer outer ih =>
    intro l p hp taken
    obtain ⟨hlast, hinner⟩ := Layer.joins_regex hp
    obtain ⟨hbars, hgroups⟩ := l.count_recordedMarks
    obtain ⟨hbars', hgroups', hjoins'⟩ := @ih (layer.push (.plain (.group p))) _ rfl
    have htaken : taken = l.recordedMarks ++ .group ::
        recorded false ((layer.push (.plain (.group p))).marks ++ outerMarks outer) := by
      have hmarks := l.recorded_marks (head?_outerMarks (layer :: outer))
      rw [Layer.marks_push]
      exact hmarks
    rw [htaken, List.count_append, List.count_append, List.count_append,
      List.count_cons_of_ne (by decide), List.count_cons_self, List.count_cons_of_ne (by decide),
      hbars, hgroups, hbars', hgroups', ← hlast]
    refine ⟨?_, ?_, ?_⟩
    · unfold bars
      rw [List.map_cons, List.sum_cons]
      rfl
    · rw [List.length_cons, Nat.zero_add]
    · unfold joins at hjoins' ⊢
      have hgroup : (Phrase.plain (.group p)).groupJoins = p.lastJoins + p.groupJoins := rfl
      rw [Layer.joins_push, hgroup] at hjoins'
      rw [List.map_cons, List.sum_cons, ← hinner]
      -- the group ends with the regex, and is counted in what is around it
      refine Eq.trans ?_ hjoins'
      dsimp only
      omega

end Draft

/-- What is recorded of the marks when a text is built. -/
theorem reductions_buildLogged {w : String} {a : Automaton} (h : build w = .ok a) :
    ∃ (p : Phrase .regex) (k : Nat), p.text = w.toList ++ List.replicate k ')' ∧
      p.automaton = a ∧
      (buildLogged w).reductions.count .alternation = w.toList.count '|' ∧
      (buildLogged w).reductions.count .group = k ∧
      (buildLogged w).reductions.count .concatenation = p.lastJoins + p.groupJoins := by
  obtain ⟨d, p, hread, hwhole, ha⟩ := build_eq_ok_iff.mp h
  have hne : w ≠ "" := by
    intro hempty
    rw [hempty] at h
    contradiction
  have hscan := Draft.result_scan_of_read w hread 0
  rw [machine_start] at hscan
  refine ⟨p, d.outer.length, Draft.text_of_draft hread hwhole, ha, ?_⟩
  obtain ⟨q, hq, rfl⟩ := Option.map_eq_some_iff.mp hwhole
  have hfinish : ((d.machine w).finish w.length).reductions
      = recorded false (d.inner.marks ++ Draft.outerMarks d.outer) := by
    obtain ⟨term, hterm, -⟩ := Option.map_eq_some_iff.mp hq
    have hafter : (d.machine w).afterOperand = true := by
      rw [Draft.afterOperand_machine, hterm]
      rfl
    exact Machine.reductions_finish hafter
      (Machine.result_drain w.length (d.machine w) d.outer d.inner q hq)
  have hreductions : (buildLogged w).reductions
      = ((Machine.start w).scan 0 w.toList).reductions
        ++ ((d.machine w).finish w.length).reductions := by
    rw [buildLogged_of_known hne (Draft.isKnown_of_read hread)]
    exact Logged.view_andThen_of_ok _ hscan _
  obtain ⟨hbars, hgroups, hjoins⟩ := Draft.accounts_read w hread 0
  obtain ⟨hbars', hgroups', hjoins'⟩ := Draft.accounts_marks d.outer hq
  have hd : Draft.mk d.inner d.outer = d := rfl
  rw [hd] at hbars' hjoins'
  rw [machine_start] at hbars hgroups hjoins
  rw [hreductions, hfinish, List.count_append, List.count_append, List.count_append]
  have hstart : Draft.start.bars = 0 ∧ Draft.start.joins = 0 := ⟨rfl, rfl⟩
  exact ⟨by omega, by omega, by omega⟩

/-- **The journal is a faithful account.** Take a text of symbols that is not empty.

The characters of its token records spell it, one after the other, if it is built; and if it
fails at `i`, they spell what it has up to and with `i`, which is all of it if `i` is its end. The
record at `i` shows as many group marks as there are parentheses `(` more than `)` in front of
`i`, and an operand for each other mark, and one more exactly if there is a letter, the sign of
the empty word, a star or a `)` right in front of `i`.

If it is built, let `p` be the tree of the text, with the parentheses that are missing. Then there
is a record that a mark was taken off for each bar, and for each group left open; and the records
of concatenations are as many as there are factors, but for one, in the last alternative of the
whole and of each of its groups, taken together. -/
theorem journal_account (w : String) (h : wellSpelled w = true) :
    (∀ a, compile w = .ok a →
      (compileLogged w).shifts.map (·.token.text) = w.toList.map String.singleton) ∧
    (∀ fault, compile w = .error fault →
      ∃ (cause : Cause) (i : Nat), fault = .regex cause w i ∧ i ≤ w.length ∧
        (compileLogged w).shifts.map (·.token.text)
          = (w.toList.take (i + 1)).map String.singleton) ∧
    (∀ i shown, (compileLogged w).shifts[i]? = some shown →
      shown.marks.count .group + (w.toList.take i).count ')' = (w.toList.take i).count '(' ∧
      shown.operands = shown.marks.count .concatenation + shown.marks.count .alternation
        + if OperandEnded w.toList i then 1 else 0) ∧
    ∀ a, compile w = .ok a →
      ∃ (p : Phrase .regex) (k : Nat), p.text = w.toList ++ List.replicate k ')' ∧
        p.automaton = a ∧ w.toList.count '(' = w.toList.count ')' + k ∧
        (compileLogged w).reductions.count .alternation = w.toList.count '|' ∧
        (compileLogged w).reductions.count .group = k ∧
        (compileLogged w).reductions.count .concatenation
          = ((p :: p.groups).map fun r => r.lastFactors - 1).sum := by
  obtain ⟨hne, hknown⟩ := wellSpelled_iff.mp h
  obtain ⟨hok, herror⟩ := tokens_buildLogged hne hknown
  have htexts : ∀ {shifts : List Shift} {cs : List Char},
      shifts.map Shift.token = cs.map Token.ofChar →
      shifts.map (·.token.text) = cs.map String.singleton := by
    intro shifts cs htokens
    have htext := congrArg (List.map Token.text) htokens
    rw [List.map_map, List.map_map] at htext
    exact htext.trans (List.map_congr_left fun c _ => Token.text_ofChar c)
  rw [compile_of_wellSpelled h, compileLogged_of_wellSpelled h]
  refine ⟨fun a ha => htexts (hok a ha), fun fault hfault => ?_, fun i shown hshown => ?_,
    fun a ha => ?_⟩
  · obtain ⟨cause, i, heq, hi, htokens⟩ := herror fault hfault
    exact ⟨cause, i, heq, hi, htexts htokens⟩
  · exact stacks_buildLogged hne hknown hshown
  · obtain ⟨p, k, htext, hp, hbars, hgroups, hjoins⟩ := reductions_buildLogged ha
    exact ⟨p, k, htext, hp, count_of_text htext, hbars, hgroups, hjoins⟩

/-- A group that is left open, with a bar in it: `a(b|cd`. The last alternatives are the whole,
which is `a` and the group, and `cd` in the group. -/
theorem journal_account_open_group :
    (compileLogged "a(b|cd").shifts.map (·.token.text) = ["a", "(", "b", "|", "c", "d"] ∧
      (compileLogged "a(b|cd").reductions.count .alternation = 1 ∧
      (compileLogged "a(b|cd").reductions.count .group = 1 ∧
      (compileLogged "a(b|cd").reductions.count .concatenation = 2 := by
  let literal (c : Char) (h : Symbol.isLiteral c = true) : Phrase .factor := .plain (.literal c h)
  let inner : Phrase .regex := .either (.alone (literal 'b' rfl))
    (.only (.followed (.alone (literal 'c' rfl)) (literal 'd' rfl)))
  let whole : Phrase .regex :=
    .only (.followed (.alone (literal 'a' rfl)) (.plain (.group inner)))
  have hcompile : compile "a(b|cd" = .ok whole.automaton := by
    rw [compile_of_wellSpelled rfl]
    exact build_of_text (k := 1) rfl
  obtain ⟨htexts, -, -, hbuilt⟩ := journal_account "a(b|cd" rfl
  obtain ⟨p, k, htext, -, hcount, hbars, hgroups, hjoins⟩ := hbuilt _ hcompile
  have hk : k = 1 := by
    rw [show "a(b|cd".toList.count '(' = 1 by decide, show "a(b|cd".toList.count ')' = 0 by decide]
      at hcount
    omega
  subst hk
  obtain rfl : p = whole := Phrase.text_injective htext
  exact ⟨htexts _ hcompile, hbars, hgroups, hjoins⟩

end RegexAutomata
