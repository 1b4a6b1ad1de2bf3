import RegexAutomata.Proofs.Workspace.Memory
import RegexAutomata.Workspace

/-!
# What comes of a step

A step works on memory, but what comes of it depends only on what the automata are that it names.
`plan` says in these terms what is to be made, changed or told, or why the step is refused, and
`Outcome` what then becomes of the workspace and of all automata in it.

`outcome` says that every step has the outcome that its plan calls for. It needs a workspace in
which no two automata share a list, and in which names belong to automata that are there (`Sound`);
the outcomes show that every step leaves such a workspace (`Sound.run`). What is said about steps
elsewhere is read off the outcomes, five of them in place of twelve kinds of step.
-/

namespace RegexAutomata.Workspace

open Memory

/-- What is to come of a step. -/
inductive Plan where
  /-- This automaton is made, for a slot. -/
  | create (slot : String) (a : Automaton)
  /-- The automaton of this number becomes `a`, and the reply is given. -/
  | change (number : Nat) (a : Automaton) (reply : Reply)
  /-- An observer is put to work. -/
  | watch (name : String) (watch : Watch)
  /-- The reply is given, and nothing changes. -/
  | tell (reply : Reply)

/-- Goes on with the number of the automaton in a slot, which has to be there. -/
def planSlot (w : Workspace) (slot : String) (go : Nat → Except Refusal Plan) :
    Except Refusal Plan :=
  match w.number? slot with
  | none => .error (.unknownSlot slot)
  | some number => go number

/-- To make an automaton, if there is one. -/
def planCreate (slot : String) : Except Fault Automaton → Except Refusal Plan
  | .error fault => .error (.fault fault)
  | .ok a => .ok (.create slot a)

/-- To change an automaton, if there is something to change it to. -/
def planChange (number : Nat) (display : Automaton → Reply) :
    Except Fault Automaton → Except Refusal Plan
  | .error fault => .error (.fault fault)
  | .ok a => .ok (.change number a (display a))

/-- What is to come of a step, said without the memory. -/
def plan (w : Workspace) : Step → Except Refusal Plan
  | .single slot symbol => planCreate slot ((onlyChar? symbol).map Automaton.single)
  | .given slot states rows accept => planCreate slot (Automaton.ofRows? states rows accept)
  | .empty slot => planCreate slot (.ok .empty)
  | .numbered slot size => planCreate slot (.ok (.numbered size.toNat))
  | .build slot regex => planCreate slot (RegexAutomata.build regex)
  | .alternate slot left right =>
    w.planSlot left fun l => w.planSlot right fun r =>
      planCreate slot (.ok ((w.memory.read l).alternate (w.memory.read r)))
  | .star slot inner =>
    w.planSlot inner fun number => planCreate slot (.ok (w.memory.read number).star)
  | .append left right =>
    w.planSlot left fun l => w.planSlot right fun r =>
      planChange l (fun joined => .appended joined (if r = l then joined else w.memory.read r))
        ((w.memory.read l).append? (w.memory.read r))
  | .add slot row =>
    w.planSlot slot fun number =>
      planChange number .automaton (row.arrow?.map (w.memory.read number).addArrow)
  | .shift row offset =>
    match row.arrow? with
    | .error fault => .error (.fault fault)
    | .ok arrow => .ok (.tell (.arrow (arrow.shifted offset)))
  | .observe name slot =>
    w.planSlot slot fun number => .ok (.watch name ⟨w.memory.arrows number, number⟩)
  | .ask name query =>
    match w.watch? name with
    | none => .error (.unknownObserver name)
    | some watch => .ok (.tell (.answer ((w.observer watch).answer query)))

/-- No two automata share a list, and every name belongs to an automaton that is there. -/
structure Sound (w : Workspace) : Prop where
  separate : w.memory.Separate
  number_lt : ∀ slot n, w.number? slot = some n → n < w.memory.size
  watch_lt : ∀ name watch, w.watch? name = some watch → watch.object < w.memory.size

/-- `Outcome w plan reply next`: what the reply and the next workspace are when `plan` is carried
out in `w`. -/
inductive Outcome (w : Workspace) :
    Except Refusal Plan → Except Refusal Reply → Workspace → Prop where
  | refused (refusal : Refusal) (m : Memory) (keeps : Keeps w.memory m) :
      Outcome w (.error refusal) (.error refusal) { w with memory := m }
  | created (slot : String) (a : Automaton) (m : Memory) (creates : Creates w.memory m a) :
      Outcome w (.ok (.create slot a)) (.ok (.automaton a))
        ⟨m, (slot, w.memory.size) :: w.slots, w.watches⟩
  | changed (n : Nat) (a : Automaton) (reply : Reply) (m : Memory) (lt : n < w.memory.size)
      (changes : Changes w.memory m n a) :
      Outcome w (.ok (.change n a reply)) (.ok reply) { w with memory := m }
  | watched (name : String) (watch : Watch) (lt : watch.object < w.memory.size) :
      Outcome w (.ok (.watch name watch)) (.ok .done)
        { w with watches := (name, watch) :: w.watches }
  | told (reply : Reply) : Outcome w (.ok (.tell reply)) (.ok reply) w

variable {w : Workspace} {step : Step} {n : Nat}

/-! ## Steps have the outcomes planned -/

theorem outcome_withSlot (h : Sound w) {slot : String} {go : Nat → Turn}
    {goal : Nat → Except Refusal Plan}
    (hgo : ∀ n, w.number? slot = some n → Outcome w (goal n) (go n).1 (go n).2) :
    Outcome w (w.planSlot slot goal) (w.withSlot slot go).1 (w.withSlot slot go).2 := by
  unfold planSlot withSlot
  cases hslot : w.number? slot with
  | none => exact .refused _ _ (.refl h.separate)
  | some n => exact hgo n hslot

theorem outcome_stored {slot : String} {made : Except Fault Nat × Memory}
    {a : Except Fault Automaton} (h : Made w.memory made a) :
    Outcome w (planCreate slot a) (w.stored slot made).1 (w.stored slot made).2 := by
  unfold planCreate stored
  cases a with
  | error fault =>
    obtain ⟨hmade, hkeeps⟩ := h
    rw [hmade]
    exact .refused _ _ hkeeps
  | ok a =>
    obtain ⟨hmade, hcreates⟩ := h
    simp only [hmade, hcreates.read_new]
    exact .created slot a made.2 hcreates

theorem outcome_changed {made : Except Fault Unit × Memory} {a : Except Fault Automaton}
    {display : Memory → Reply} {displayed : Automaton → Reply} (hn : n < w.memory.size)
    (h : Changed w.memory n made a)
    (hdisplay : ∀ b, Changes w.memory made.2 n b → display made.2 = displayed b) :
    Outcome w (planChange n displayed a) (w.changed made display).1
      (w.changed made display).2 := by
  unfold planChange changed
  cases a with
  | error fault =>
    obtain ⟨hmade, hkeeps⟩ := h
    rw [hmade]
    exact .refused _ _ hkeeps
  | ok a =>
    obtain ⟨hmade, hchanges⟩ := h
    simp only [hmade, hdisplay a hchanges]
    exact .changed n a _ made.2 hn hchanges

/-- Every step does what was planned. -/
theorem outcome (h : Sound w) (step : Step) :
    Outcome w (w.plan step) (w.reply step) (w.next step) := by
  cases step with
  | single slot symbol => exact outcome_stored (made_single h.separate symbol)
  | given slot states rows accept => exact outcome_stored (made_place h.separate _)
  | empty slot => exact outcome_stored (made_place h.separate (.ok .empty))
  | numbered slot size => exact outcome_stored (made_place h.separate (.ok (.numbered size.toNat)))
  | build slot regex => exact outcome_stored (made_place h.separate _)
  | alternate slot left right =>
    refine outcome_withSlot h fun l hl => outcome_withSlot h fun r hr => ?_
    exact outcome_stored (made_alternate h.separate (h.number_lt _ _ hl) (h.number_lt _ _ hr))
  | star slot inner =>
    refine outcome_withSlot h fun number hnumber => ?_
    exact outcome_stored (made_star h.separate (h.number_lt _ _ hnumber))
  | append left right =>
    refine outcome_withSlot h fun l hl => outcome_withSlot h fun r hr => ?_
    have hlt := h.number_lt _ _ hl
    refine outcome_changed hlt (changed_append h.separate hlt) fun joined hjoined => ?_
    split
    · next heq =>
      subst heq
      rw [hjoined.read_self]
    · next hne => rw [hjoined.read_self, hjoined.read_other r hne]
  | add slot row =>
    refine outcome_withSlot h fun number hnumber => ?_
    have hlt := h.number_lt _ _ hnumber
    refine outcome_changed hlt (changed_add h.separate hlt row) fun a ha => ?_
    rw [ha.read_self]
  | shift row offset =>
    simp only [plan, reply, next, act]
    cases row.arrow? with
    | error fault => exact .refused _ _ (.refl h.separate)
    | ok arrow => exact .told _
  | observe name slot =>
    exact outcome_withSlot h fun number hnumber => .watched name _ (h.number_lt _ _ hnumber)
  | ask name query =>
    simp only [plan, reply, next, act]
    cases w.watch? name with
    | none => exact .refused _ _ (.refl h.separate)
    | some watch => exact .told _

/-! ## Workspaces stay sound -/

theorem number?_cons (w : Workspace) (m : Memory) (slot other : String) (n : Nat) :
    (Workspace.mk m ((slot, n) :: w.slots) w.watches).number? other
      = if other == slot then some n else w.number? other := by
  unfold number?
  rw [List.lookup_cons]
  cases other == slot <;> rfl

theorem watch?_cons (w : Workspace) (name other : String) (watch : Watch) :
    ({ w with watches := (name, watch) :: w.watches }).watch? other
      = if other == name then some watch else w.watch? other := by
  unfold watch?
  rw [List.lookup_cons]
  cases other == name <;> rfl

theorem Sound.of_keeps (h : Sound w) {m : Memory} (hm : m.Separate)
    (hle : w.memory.size ≤ m.size) : Sound { w with memory := m } :=
  ⟨hm, fun slot n hn => Nat.lt_of_lt_of_le (h.number_lt slot n hn) hle,
    fun name watch hwatch => Nat.lt_of_lt_of_le (h.watch_lt name watch hwatch) hle⟩

theorem sound_empty : Sound empty :=
  ⟨separate_empty, nofun, nofun⟩

theorem Sound.next (h : Sound w) (step : Step) : Sound (w.next step) := by
  have hout := outcome h step
  generalize w.plan step = plan, w.reply step = reply, w.next step = next at hout
  cases hout with
  | refused _ m keeps => exact h.of_keeps keeps.separate keeps.size_le
  | created slot a m creates =>
    have hmore := h.of_keeps creates.separate creates.keeps.size_le
    refine ⟨hmore.separate, fun other n hn => ?_, hmore.watch_lt⟩
    rw [number?_cons] at hn
    split at hn
    · cases hn
      exact creates.lt_size
    · exact hmore.number_lt other n hn
  | changed n a _ m lt changes =>
    exact h.of_keeps changes.separate (Nat.le_of_eq changes.size_eq.symm)
  | watched name watch lt =>
    refine ⟨h.separate, h.number_lt, fun other watch' hwatch => ?_⟩
    rw [watch?_cons] at hwatch
    split at hwatch
    · cases hwatch
      exact lt
    · exact h.watch_lt other watch' hwatch
  | told _ => exact h

theorem Sound.run (h : Sound w) (steps : List Step) : Sound (w.run steps) := by
  induction steps generalizing w with
  | nil => exact h
  | cons step rest ih => exact ih (h.next step)

end RegexAutomata.Workspace
