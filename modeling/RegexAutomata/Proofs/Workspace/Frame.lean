import RegexAutomata.Proofs.Workspace.Outcomes

/-!
# What steps leave alone

Of the automata that are there, a step changes at most one, its target: the left one of two that
are put together, or the one that gets another arrow; a step that is refused changes none
(`read_next`, `next_of_refused`). Along a run that leaves an automaton, it therefore stays what it
is, whatever becomes of those that it was built from (`read_run`). A name stays with its observer
until it is given away (`watch?_next`).
-/

namespace RegexAutomata.Workspace

open Memory

/-- The automaton that a step is to change. -/
def target? (w : Workspace) : Step → Option Nat
  | .append left _ => w.number? left
  | .add slot _ => w.number? slot
  | _ => none

/-- The automaton `n` is not the target of the step, or the step is refused. -/
def Leaves (w : Workspace) (n : Nat) (step : Step) : Prop :=
  w.target? step = some n → ∃ refusal, w.reply step = .error refusal

/-- All the steps, done one after the other, leave the automaton `n`. -/
def Spares (w : Workspace) (n : Nat) : List Step → Prop
  | [] => True
  | step :: rest => w.Leaves n step ∧ (w.next step).Spares n rest

/-- Whether an automaton is to be put behind itself. -/
def doubles (w : Workspace) : Step → Bool
  | .append left right => (w.number? left).isSome && w.number? left == w.number? right
  | _ => false

/-- None of the steps, done one after the other, is to put an automaton behind itself. -/
def NoDoubles (w : Workspace) : List Step → Prop
  | [] => True
  | step :: rest => w.doubles step = false ∧ (w.next step).NoDoubles rest

variable {w : Workspace} {step : Step} {steps : List Step} {n : Nat} {name slot : String}
  {a : Automaton} {reply : Reply} {refusal : Refusal} {p : Plan}

/-! ## Plans that are made -/

theorem of_planSlot {go : Nat → Except Refusal Plan} (h : w.planSlot slot go = .ok p) :
    ∃ n, w.number? slot = some n ∧ go n = .ok p := by
  unfold planSlot at h
  cases hslot : w.number? slot with
  | none =>
    rw [hslot] at h
    cases h
  | some n =>
    rw [hslot] at h
    exact ⟨n, rfl, h⟩

theorem of_planCreate {made : Except Fault Automaton} (h : planCreate slot made = .ok p) :
    ∃ a, p = .create slot a := by
  cases made with
  | error fault => cases h
  | ok a => exact ⟨a, (Except.ok.inj h).symm⟩

theorem of_planChange {display : Automaton → Reply} {made : Except Fault Automaton}
    (h : planChange n display made = .ok p) : ∃ a, p = .change n a (display a) := by
  cases made with
  | error fault => cases h
  | ok a => exact ⟨a, (Except.ok.inj h).symm⟩

/-- What the plans are of: only the target is changed, and only observing makes observers. -/
theorem plan_cases (h : w.plan step = .ok p) :
    (∃ slot a, p = .create slot a) ∨
      (∃ n a reply, p = .change n a reply ∧ w.target? step = some n) ∨
      (∃ name slot n, p = .watch name ⟨w.memory.arrows n, n⟩ ∧ step = .observe name slot ∧
        w.number? slot = some n) ∨
      ∃ reply, p = .tell reply := by
  cases step with
  | single slot symbol => exact .inl ⟨slot, of_planCreate h⟩
  | given slot states rows accept => exact .inl ⟨slot, of_planCreate h⟩
  | empty slot => exact .inl ⟨slot, .empty, (Except.ok.inj h).symm⟩
  | numbered slot size => exact .inl ⟨slot, .numbered size.toNat, (Except.ok.inj h).symm⟩
  | build slot regex => exact .inl ⟨slot, of_planCreate h⟩
  | alternate slot left right =>
    obtain ⟨l, -, hright⟩ := of_planSlot h
    obtain ⟨r, -, hmake⟩ := of_planSlot hright
    exact .inl ⟨slot, of_planCreate hmake⟩
  | star slot inner =>
    obtain ⟨n, -, hmake⟩ := of_planSlot h
    exact .inl ⟨slot, of_planCreate hmake⟩
  | append left right =>
    obtain ⟨l, hl, hright⟩ := of_planSlot h
    obtain ⟨r, -, hchange⟩ := of_planSlot hright
    obtain ⟨joined, hp⟩ := of_planChange hchange
    exact .inr (.inl ⟨l, joined, _, hp, hl⟩)
  | add slot row =>
    obtain ⟨n, hn, hchange⟩ := of_planSlot h
    obtain ⟨a, hp⟩ := of_planChange hchange
    exact .inr (.inl ⟨n, a, _, hp, hn⟩)
  | shift row offset =>
    simp only [plan] at h
    split at h
    · cases h
    · exact .inr (.inr (.inr ⟨_, (Except.ok.inj h).symm⟩))
  | observe name slot =>
    obtain ⟨n, hn, hp⟩ := of_planSlot h
    exact .inr (.inr (.inl ⟨name, slot, n, (Except.ok.inj hp).symm, rfl, hn⟩))
  | ask name query =>
    simp only [plan] at h
    split at h
    · cases h
    · exact .inr (.inr (.inr ⟨_, (Except.ok.inj h).symm⟩))

theorem target?_of_plan (h : w.plan step = .ok (.change n a reply)) : w.target? step = some n := by
  rcases plan_cases h with ⟨_, _, hp⟩ | ⟨_, _, _, hp, htarget⟩ | ⟨_, _, _, hp, _⟩ | ⟨_, hp⟩
  · cases hp
  · cases hp
    exact htarget
  · cases hp
  · cases hp

theorem observe_of_plan {watch : Watch} (h : w.plan step = .ok (.watch name watch)) :
    ∃ slot, step = .observe name slot ∧ w.number? slot = some watch.object := by
  rcases plan_cases h with ⟨_, _, hp⟩ | ⟨_, _, _, hp, _⟩ | ⟨_, slot, n, hp, hstep, hn⟩ | ⟨_, hp⟩
  · cases hp
  · cases hp
  · cases hp
    exact ⟨slot, hstep, hn⟩
  · cases hp

/-! ## One step -/

theorem next_of_refused (h : Sound w) (hrefused : w.reply step = .error refusal) :
    ∃ m, Keeps w.memory m ∧ w.next step = { w with memory := m } := by
  have hout := outcome h step
  rw [hrefused] at hout
  generalize w.plan step = plan, w.next step = next at hout
  cases hout with
  | refused _ m keeps => exact ⟨m, keeps, rfl⟩

theorem size_le_next (h : Sound w) (step : Step) :
    w.memory.size ≤ (w.next step).memory.size := by
  have hout := outcome h step
  generalize w.plan step = plan, w.reply step = reply, w.next step = next at hout
  cases hout with
  | refused _ m keeps => exact keeps.size_le
  | created slot a m creates => exact creates.keeps.size_le
  | changed n a _ m _ changes => exact Nat.le_of_eq changes.size_eq.symm
  | watched _ _ _ => exact Nat.le_refl _
  | told _ => exact Nat.le_refl _

/-- A step leaves all automata but its target as they are, and one that is refused leaves all. -/
theorem read_next (h : Sound w) (hn : n < w.memory.size) (hleaves : w.Leaves n step) :
    (w.next step).memory.read n = w.memory.read n := by
  have hout := outcome h step
  generalize hplan : w.plan step = plan at hout
  unfold Leaves at hleaves
  generalize w.reply step = reply, w.next step = next at hout hleaves
  cases hout with
  | refused _ m keeps => exact keeps.read_eq n hn
  | created slot a m creates => exact creates.keeps.read_eq n hn
  | changed k a _ m _ changes =>
    refine changes.read_other n fun heq => ?_
    rw [heq] at hleaves
    obtain ⟨_, hrefused⟩ := hleaves (target?_of_plan hplan)
    cases hrefused
  | watched _ _ _ => rfl
  | told _ => rfl

/-- A name stays with its observer until an observer is made under it. -/
theorem watch?_next (h : Sound w) (hname : ∀ slot, step ≠ .observe name slot) :
    (w.next step).watch? name = w.watch? name := by
  have hout := outcome h step
  generalize hplan : w.plan step = plan at hout
  generalize w.reply step = reply, w.next step = next at hout
  cases hout with
  | refused _ m keeps => rfl
  | created slot a m creates => rfl
  | changed k a _ m _ changes => rfl
  | watched other watch _ =>
    rw [watch?_cons]
    have hother : name ≠ other := by
      rintro rfl
      obtain ⟨slot, rfl, -⟩ := observe_of_plan hplan
      exact hname slot rfl
    rw [if_neg (fun heq => hother (beq_iff_eq.mp heq))]
  | told _ => rfl

/-! ## Products -/

/-- The automata that a construction looks at without changing them. -/
def parts (w : Workspace) : Step → List Nat
  | .alternate _ left right => (w.number? left).toList ++ (w.number? right).toList
  | .star _ inner => (w.number? inner).toList
  | .append _ right => (w.number? right).toList
  | _ => []

/-- The automaton that a construction brings: one in a cell of its own, or the changed left one. -/
def product? (w : Workspace) (step : Step) : Option Nat :=
  match step with
  | .alternate slot _ _ | .star slot _ => (w.next step).number? slot
  | .append left _ => w.number? left
  | _ => none

theorem exists_plan_of_granted (h : Sound w) (hgranted : w.reply step = .ok reply) :
    ∃ p, w.plan step = .ok p := by
  have hout := outcome h step
  rw [hgranted] at hout
  generalize w.plan step = plan, w.next step = next at hout
  cases hout <;> exact ⟨_, rfl⟩

theorem next_of_create (h : Sound w) (hplan : w.plan step = .ok (.create slot a)) :
    (w.next step).number? slot = some w.memory.size ∧
      Creates w.memory (w.next step).memory a := by
  have hout := outcome h step
  rw [hplan] at hout
  generalize w.reply step = reply, w.next step = next at hout
  cases hout with
  | created _ _ m creates =>
    rw [number?_cons, if_pos (beq_self_eq_true slot)]
    exact ⟨rfl, creates⟩

theorem next_of_change (h : Sound w) (hplan : w.plan step = .ok (.change n a reply)) :
    Changes w.memory (w.next step).memory n a := by
  have hout := outcome h step
  rw [hplan] at hout
  generalize w.reply step = reply', w.next step = next at hout
  cases hout with
  | changed _ _ _ m _ changes => exact changes

theorem lt_of_mem_parts (h : Sound w) {k : Nat} (hk : k ∈ w.parts step) : k < w.memory.size := by
  unfold parts at hk
  split at hk
  · rcases List.mem_append.mp hk with hk | hk <;> exact h.number_lt _ _ (Option.mem_toList.mp hk)
  · exact h.number_lt _ _ (Option.mem_toList.mp hk)
  · exact h.number_lt _ _ (Option.mem_toList.mp hk)
  · cases hk

/-- What is made of automata is none of them: it has a cell of its own, or it was the left one of two
different ones. -/
theorem product_apart (h : Sound w) (hsingle : w.doubles step = false)
    (hgranted : w.reply step = .ok reply) (hproduct : w.product? step = some n) :
    n ∉ w.parts step ∧ n < (w.next step).memory.size := by
  obtain ⟨p, hplan⟩ := exists_plan_of_granted h hgranted
  -- a cell of its own
  have hnew : ∀ slot a, p = .create slot a → (w.next step).number? slot = some n →
      n ∉ w.parts step ∧ n < (w.next step).memory.size := by
    rintro slot a rfl hn
    obtain ⟨hnumber, hcreates⟩ := next_of_create h hplan
    cases hnumber.symm.trans hn
    exact ⟨fun hmem => Nat.lt_irrefl _ (lt_of_mem_parts h hmem), hcreates.lt_size⟩
  cases step with
  | alternate slot left right =>
    obtain ⟨l, -, hright⟩ := of_planSlot hplan
    obtain ⟨r, -, hmake⟩ := of_planSlot hright
    obtain ⟨a, hp⟩ := of_planCreate hmake
    exact hnew slot a hp hproduct
  | star slot inner =>
    obtain ⟨k, -, hmake⟩ := of_planSlot hplan
    obtain ⟨a, hp⟩ := of_planCreate hmake
    exact hnew slot a hp hproduct
  | append left right =>
    have hleft : w.number? left = some n := hproduct
    refine ⟨fun hmem => ?_, Nat.lt_of_lt_of_le (h.number_lt _ _ hleft) (size_le_next h _)⟩
    have hright : w.number? right = some n := Option.mem_toList.mp hmem
    simp [doubles, hleft, hright] at hsingle
  | _ => cases hproduct

/-! ## Runs -/

/-- An automaton stays what it is as long as all steps leave it. -/
theorem read_run (h : Sound w) (hn : n < w.memory.size) (hspares : w.Spares n steps) :
    (w.run steps).memory.read n = w.memory.read n := by
  induction steps generalizing w with
  | nil => rfl
  | cons step rest ih =>
    obtain ⟨hstep, hrest⟩ := hspares
    exact (ih (h.next step) (Nat.lt_of_lt_of_le hn (size_le_next h step)) hrest).trans
      (read_next h hn hstep)

theorem NoDoubles.append {front back : List Step} (h : w.NoDoubles (front ++ back)) :
    (w.run front).NoDoubles back := by
  induction front generalizing w with
  | nil => exact h
  | cons step rest ih => exact ih h.2

theorem watch?_run (h : Sound w) (hname : ∀ slot, .observe name slot ∉ steps) :
    (w.run steps).watch? name = w.watch? name := by
  induction steps generalizing w with
  | nil => rfl
  | cons step rest ih =>
    have hrest := ih (h.next step) fun slot hmem => hname slot (List.mem_cons_of_mem _ hmem)
    refine hrest.trans (watch?_next h fun slot heq => hname slot ?_)
    rw [heq]
    exact List.mem_cons_self

end RegexAutomata.Workspace
