import RegexAutomata.Proofs.Workspace.Frame

/-!
# Steps that are refused

A refused step may leave a cell behind that no name belongs to. From then on every new automaton has
another number than it would have had otherwise, but nothing else is different, and numbers are
never shown. `Mirrors` relates two such workspaces: what is `n` in the one is `f n` in the other,
which may hold more. Steps do the same to both and bring the same (`Mirrors.act`), hence so do runs
(`Mirrors.answers`). As a workspace mirrors itself after a refused step, all refused steps can be
left out of a run without a trace (`answers_granted`).

Main result: `run_isolated`.
-/

namespace RegexAutomata.Workspace

open Memory

/-- Some name belongs to the automaton. -/
inductive Named (w : Workspace) (n : Nat) : Prop where
  | slot (slot : String) (h : w.number? slot = some n)
  | watch (name : String) (watch : Watch) (h : w.watch? name = some watch)
      (object : watch.object = n)

/-- The observer of the automaton that has the number `f n` in place of `n`. -/
def renamedWatch (f : Nat → Nat) (watch : Watch) : Watch :=
  ⟨watch.noted, f watch.object⟩

/-- The same plan, with other numbers. -/
def Plan.renamed (f : Nat → Nat) : Plan → Plan
  | .create slot a => .create slot a
  | .change n a reply => .change (f n) a reply
  | .watch name found => .watch name (renamedWatch f found)
  | .tell reply => .tell reply

/-- All that has a name in `w` has it in `v`, too, where `f n` is what `n` is in `w`. -/
structure Mirrors (f : Nat → Nat) (w v : Workspace) : Prop where
  number : ∀ slot, v.number? slot = (w.number? slot).map f
  watch : ∀ name, v.watch? name = (w.watch? name).map (renamedWatch f)
  read : ∀ n, w.Named n → v.memory.read (f n) = w.memory.read n
  inj : ∀ n k, w.Named n → w.Named k → f n = f k → n = k

/-- The steps that are not refused, one after the other. -/
def granted (w : Workspace) : List Step → List Step
  | [] => []
  | step :: rest =>
    if (w.reply step).isOk then step :: (w.next step).granted rest else (w.next step).granted rest

variable {f : Nat → Nat} {w v : Workspace} {step : Step} {n : Nat} {refusal : Refusal}

theorem Sound.lt_of_named (h : Sound w) (hn : w.Named n) : n < w.memory.size := by
  cases hn with
  | slot slot hslot => exact h.number_lt slot n hslot
  | watch name watch hwatch object => exact object ▸ h.watch_lt name watch hwatch

theorem named_memory (w : Workspace) (m : Memory) (n : Nat) :
    ({ w with memory := m } : Workspace).Named n = w.Named n := by
  refine propext ⟨fun hn => ?_, fun hn => ?_⟩ <;> cases hn with
  | slot slot hslot => exact .slot slot hslot
  | watch name watch hwatch object => exact .watch name watch hwatch object

theorem named_of_target (h : w.target? step = some n) : w.Named n := by
  unfold target? at h
  split at h
  · exact .slot _ h
  · exact .slot _ h
  · cases h

/-! ## Mirrored plans -/

theorem planCreate_renamed (f : Nat → Nat) (slot : String) (a : Except Fault Automaton) :
    (planCreate slot a).map (Plan.renamed f) = planCreate slot a := by
  cases a <;> rfl

theorem planChange_renamed (f : Nat → Nat) (n : Nat) (display : Automaton → Reply)
    (a : Except Fault Automaton) :
    (planChange n display a).map (Plan.renamed f) = planChange (f n) display a := by
  cases a <;> rfl

namespace Mirrors

theorem planSlot (h : Mirrors f w v) {slot : String} {go goal : Nat → Except Refusal Plan}
    (hgo : ∀ n, w.Named n → goal (f n) = (go n).map (Plan.renamed f)) :
    v.planSlot slot goal = (w.planSlot slot go).map (Plan.renamed f) := by
  unfold Workspace.planSlot
  rw [h.number slot]
  cases hslot : w.number? slot with
  | none => rfl
  | some n => exact hgo n (.slot slot hslot)

/-- The same is to come of a step in both. -/
theorem plan (h : Mirrors f w v) (step : Step) :
    v.plan step = (w.plan step).map (Plan.renamed f) := by
  cases step with
  | single slot symbol => exact (planCreate_renamed f slot _).symm
  | given slot states rows accept => exact (planCreate_renamed f slot _).symm
  | empty slot => rfl
  | numbered slot size => rfl
  | build slot regex => exact (planCreate_renamed f slot _).symm
  | alternate slot left right =>
    refine h.planSlot fun l hl => h.planSlot fun r hr => ?_
    rw [planCreate_renamed, h.read l hl, h.read r hr]
  | star slot inner =>
    refine h.planSlot fun n hn => ?_
    rw [planCreate_renamed, h.read n hn]
  | append left right =>
    refine h.planSlot fun l hl => h.planSlot fun r hr => ?_
    have hsame : f r = f l ↔ r = l := ⟨h.inj r l hr hl, congrArg f⟩
    simp only [planChange_renamed, h.read l hl, h.read r hr, hsame]
  | add slot row =>
    refine h.planSlot fun n hn => ?_
    rw [planChange_renamed, h.read n hn]
  | shift row offset =>
    simp only [Workspace.plan]
    cases row.arrow? <;> rfl
  | observe name slot =>
    refine h.planSlot fun n hn => ?_
    have harrows : v.memory.arrows (f n) = w.memory.arrows n :=
      congrArg Automaton.arrows (h.read n hn)
    rw [harrows]
    rfl
  | ask name query =>
    simp only [Workspace.plan]
    rw [h.watch name]
    cases hname : w.watch? name with
    | none => rfl
    | some watch =>
      have hread := h.read watch.object (.watch name watch hname rfl)
      simp only [Option.map_some, observer, renamedWatch, hread]
      rfl

/-! ## Mirrored steps -/

theorem named (h : Mirrors f w v) (hn : w.Named n) : v.Named (f n) := by
  cases hn with
  | slot slot hslot =>
    refine .slot slot ?_
    rw [h.number, hslot]
    rfl
  | watch name watch hwatch object =>
    refine .watch name (renamedWatch f watch) ?_ (congrArg f object)
    rw [h.watch, hwatch]
    rfl

/-- Both may be given more that has no name. -/
theorem keeps (h : Mirrors f w v) (hw : Sound w) (hv : Sound v) {m m' : Memory}
    (hm : Keeps w.memory m) (hm' : Keeps v.memory m') :
    Mirrors f { w with memory := m } { v with memory := m' } := by
  refine ⟨h.number, h.watch, fun n hn => ?_, fun n k hn hk => ?_⟩
  · rw [named_memory] at hn
    calc m'.read (f n)
      _ = v.memory.read (f n) := hm'.read_eq _ (hv.lt_of_named (h.named hn))
      _ = w.memory.read n := h.read n hn
      _ = m.read n := (hm.read_eq n (hw.lt_of_named hn)).symm
  · rw [named_memory] at hn hk
    exact h.inj n k hn hk

theorem changed (h : Mirrors f w v) {a : Automaton} {m m' : Memory} (hn : w.Named n)
    (hm : Changes w.memory m n a) (hm' : Changes v.memory m' (f n) a) :
    Mirrors f { w with memory := m } { v with memory := m' } := by
  refine ⟨h.number, h.watch, fun k hk => ?_, fun k l hk hl => ?_⟩
  · rw [named_memory] at hk
    by_cases heq : k = n
    · rw [heq]
      exact hm'.read_self.trans hm.read_self.symm
    · calc m'.read (f k)
        _ = v.memory.read (f k) := hm'.read_other _ fun hf => heq (h.inj k n hk hn hf)
        _ = w.memory.read k := h.read k hk
        _ = m.read k := (hm.read_other k heq).symm
  · rw [named_memory] at hk hl
    exact h.inj k l hk hl

/-- A new automaton has its own number in either. -/
theorem created (h : Mirrors f w v) (hw : Sound w) (hv : Sound v) {a : Automaton} {m m' : Memory}
    (slot : String) (hm : Creates w.memory m a) (hm' : Creates v.memory m' a) :
    Mirrors (fun n => if n = w.memory.size then v.memory.size else f n)
      ⟨m, (slot, w.memory.size) :: w.slots, w.watches⟩
      ⟨m', (slot, v.memory.size) :: v.slots, v.watches⟩ := by
  have hold : ∀ n, w.Named n → n ≠ w.memory.size ∧ f n ≠ v.memory.size := fun n hn =>
    ⟨Nat.ne_of_lt (hw.lt_of_named hn), Nat.ne_of_lt (hv.lt_of_named (h.named hn))⟩
  have hnamed : ∀ n, (Workspace.mk m ((slot, w.memory.size) :: w.slots) w.watches).Named n →
      n = w.memory.size ∨ w.Named n := by
    intro n hn
    cases hn with
    | slot other hother =>
      rw [number?_cons] at hother
      split at hother
      · exact .inl (Option.some.inj hother).symm
      · exact .inr (.slot other hother)
    | watch name watch hwatch object => exact .inr (.watch name watch hwatch object)
  -- in each part: the new automaton, or one that was there in both
  refine ⟨fun other => ?_, fun name => ?_, fun n hn => ?_, fun n k hn hk => ?_⟩
  · rw [number?_cons, number?_cons]
    split
    · simp only [Option.map_some, if_true]
    · rw [h.number]
      refine Option.map_congr fun n hn => ?_
      rw [if_neg (hold n (.slot other hn)).1]
  · refine (h.watch name).trans (Option.map_congr fun watch hwatch => ?_)
    simp only [renamedWatch, if_neg (hold _ (.watch name watch hwatch rfl)).1]
  · rcases hnamed n hn with rfl | hn
    · simp only [if_true, hm.read_new, hm'.read_new]
    · obtain ⟨hnew, hnew'⟩ := hold n hn
      simp only [if_neg hnew, hm.read_old n hnew, hm'.read_old _ hnew', h.read n hn]
  · rcases hnamed n hn with rfl | hn <;> rcases hnamed k hk with rfl | hk
    · exact fun _ => rfl
    · simp only [if_true, if_neg (hold k hk).1]
      exact fun hf => absurd hf.symm (hold k hk).2
    · simp only [if_true, if_neg (hold n hn).1]
      exact fun hf => absurd hf (hold n hn).2
    · simp only [if_neg (hold n hn).1, if_neg (hold k hk).1]
      exact h.inj n k hn hk

theorem watched (h : Mirrors f w v) (name : String) {watch : Watch}
    (hwatch : w.Named watch.object) :
    Mirrors f { w with watches := (name, watch) :: w.watches }
      { v with watches := (name, renamedWatch f watch) :: v.watches } := by
  have hnamed : ∀ n, ({ w with watches := (name, watch) :: w.watches } : Workspace).Named n →
      w.Named n := by
    intro n hn
    cases hn with
    | slot slot hslot => exact .slot slot hslot
    | watch other found hfound object =>
      rw [watch?_cons] at hfound
      split at hfound
      · cases hfound
        exact object ▸ hwatch
      · exact .watch other found hfound object
  refine ⟨h.number, fun other => ?_, fun n hn => h.read n (hnamed n hn),
    fun n k hn hk => h.inj n k (hnamed n hn) (hnamed k hk)⟩
  rw [watch?_cons, watch?_cons]
  split
  · rfl
  · exact h.watch other

/-- Every step brings the same in both, and leaves the one mirroring the other. -/
theorem act (h : Mirrors f w v) (hw : Sound w) (hv : Sound v) (step : Step) :
    v.reply step = w.reply step ∧ ∃ g, Mirrors g (w.next step) (v.next step) := by
  have houtv := outcome hv step
  have houtw := outcome hw step
  rw [h.plan step] at houtv
  generalize hplan : w.plan step = plan at houtv houtw
  generalize w.reply step = replyw, w.next step = nextw at houtw
  generalize v.reply step = replyv, v.next step = nextv at houtv
  -- both outcomes are of one kind, as both plans are
  cases houtw with
  | refused refusal m keepsw =>
    cases houtv with
    | refused _ m' keepsv => exact ⟨rfl, f, h.keeps hw hv keepsw keepsv⟩
  | created slot a m createsw =>
    cases houtv with
    | created _ _ m' createsv => exact ⟨rfl, _, h.created hw hv slot createsw createsv⟩
  | changed n a reply m _ changesw =>
    cases houtv with
    | changed _ _ _ m' _ changesv =>
      exact ⟨rfl, f, h.changed (named_of_target (target?_of_plan hplan)) changesw changesv⟩
  | watched name watch _ =>
    cases houtv with
    | watched _ _ _ =>
      obtain ⟨slot, -, hslot⟩ := observe_of_plan hplan
      exact ⟨rfl, f, h.watched name (.slot slot hslot)⟩
  | told reply =>
    cases houtv with
    | told _ => exact ⟨rfl, f, h⟩

/-! ## Mirrored runs -/

/-- Every run brings the same in both. -/
theorem answers (h : Mirrors f w v) (hw : Sound w) (hv : Sound v) (steps : List Step) :
    v.answers steps = w.answers steps := by
  induction steps generalizing f w v with
  | nil => rfl
  | cons step rest ih =>
    obtain ⟨hreply, g, hnext⟩ := h.act hw hv step
    simp only [Workspace.answers, hreply, ih hnext (hw.next step) (hv.next step)]

end Mirrors

theorem mirrors_of_refused (hw : Sound w) (hrefused : w.reply step = .error refusal) :
    Mirrors id w (w.next step) := by
  obtain ⟨m, hkeeps, hnext⟩ := next_of_refused hw hrefused
  rw [hnext]
  refine ⟨fun slot => Option.map_id'.symm, fun name => Option.map_id'.symm, fun n hn => ?_,
    fun _ _ _ _ heq => heq⟩
  exact hkeeps.read_eq n (hw.lt_of_named hn)

/-- Without the refused steps, a run brings what it brought besides the refusals. -/
theorem answers_granted (hw : Sound w) (steps : List Step) :
    w.answers (w.granted steps) = (w.answers steps).filter Except.isOk := by
  induction steps generalizing w with
  | nil => rfl
  | cons step rest ih =>
    have hrest := ih (hw.next step)
    cases hreply : w.reply step with
    | ok reply =>
      have hgranted : w.granted (step :: rest) = step :: (w.next step).granted rest := by
        rw [granted, hreply]
        rfl
      rw [hgranted, answers, answers, hreply, List.filter_cons_of_pos rfl, hrest]
    | error refusal =>
      have hgranted : w.granted (step :: rest) = (w.next step).granted rest := by
        rw [granted, hreply]
        rfl
      have hmirrors := (mirrors_of_refused hw hreply).answers hw (hw.next step)
      rw [hgranted, ← hmirrors, answers, hreply, List.filter_cons_of_neg Bool.false_ne_true, hrest]

/-- **Steps do nothing besides.** In a run that puts no automaton behind itself, whatever came
before and comes later:

* an automaton that is there changes only as the target of the step;
* the automaton that is made of others is none of them, and it stays what it is until a step changes
  it for a target, whatever the others become;
* a refused step leaves all automata, names and observers as they are;
* without the refused steps, the run brings what it brought besides the refusals. -/
theorem run_isolated (before : List Step) (step : Step) (later : List Step)
    (h : empty.NoDoubles (before ++ step :: later)) :
    let w := empty.run before
    let next := w.next step
    (∀ n < w.memory.size, next.memory.read n ≠ w.memory.read n → w.target? step = some n) ∧
    (∀ n reply, w.reply step = .ok reply → w.product? step = some n →
      n ∉ w.parts step ∧
        (next.Spares n later → (next.run later).memory.read n = next.memory.read n)) ∧
    (∀ refusal, w.reply step = .error refusal →
      (∀ n < w.memory.size, next.memory.read n = w.memory.read n) ∧
        next.slots = w.slots ∧ next.watches = w.watches) ∧
    empty.answers (empty.granted (before ++ step :: later))
      = (empty.answers (before ++ step :: later)).filter Except.isOk := by
  intro w next
  have hw : Sound w := sound_empty.run before
  refine ⟨fun n hn hchanged => ?_, fun n reply hreply hproduct => ?_, fun refusal hrefused => ?_,
    answers_granted sound_empty _⟩
  · refine Decidable.byContradiction fun htarget => hchanged ?_
    exact read_next hw hn fun hn => absurd hn htarget
  · obtain ⟨happart, hlt⟩ := product_apart hw h.append.1 hreply hproduct
    exact ⟨happart, fun hspares => read_run (hw.next step) hlt hspares⟩
  · obtain ⟨m, hkeeps, hnext⟩ := next_of_refused hw hrefused
    rw [show next = _ from hnext]
    exact ⟨hkeeps.read_eq, rfl, rfl⟩

/-- A choice stays what it is while both its sides are changed, in a run with refused steps of all
kinds: a symbol that is too long, an automaton without states on the left, a broken regex, an arrow
without a symbol. -/
theorem run_isolated_choice :
    let before : List Step := [.single "a" "x", .single "b" "yy", .single "b" "y", .empty "e",
      .append "e" "a", .observe "o" "a"]
    let step : Step := .alternate "u" "a" "b"
    let later : List Step := [.append "a" "b", .build "n" "a|", .add "b" ⟨0, "z", 1⟩,
      .add "b" ⟨0, "", 1⟩, .ask "o" .reachable]
    let w := empty.run before
    let next := w.next step
    empty.NoDoubles (before ++ step :: later) ∧
      w.product? step = some 4 ∧ w.parts step = [0, 2] ∧ next.Spares 4 later ∧
      (next.run later).memory.read 4 = (Automaton.single 'x').alternate (.single 'y') ∧
      (next.run later).memory.read 0 ≠ next.memory.read 0 ∧
      empty.answers (empty.granted (before ++ step :: later))
        = (empty.answers (before ++ step :: later)).filter Except.isOk := by
  intro before step later w next
  have hdoubles : empty.NoDoubles (before ++ step :: later) :=
    ⟨rfl, rfl, rfl, rfl, rfl, rfl, rfl, rfl, rfl, rfl, rfl, rfl, trivial⟩
  have hspares : next.Spares 4 later :=
    ⟨fun h => absurd h (by decide), nofun, fun h => absurd h (by decide),
      fun h => absurd h (by decide), nofun, trivial⟩
  have hread : next.memory.read 4 = (Automaton.single 'x').alternate (.single 'y') := by
    decide +kernel
  have hchanged : (next.run later).memory.read 0 ≠ next.memory.read 0 := by decide +kernel
  obtain ⟨-, hproduct, -, hanswers⟩ := run_isolated before step later hdoubles
  obtain ⟨-, hstays⟩ := hproduct 4 _ rfl rfl
  exact ⟨hdoubles, rfl, rfl, hspares, (hstays hspares).trans hread, hchanged, hanswers⟩

end RegexAutomata.Workspace
