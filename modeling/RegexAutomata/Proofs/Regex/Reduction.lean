import Mathlib.Logic.Relation
import RegexAutomata.Proofs.Automaton.Shape
import RegexAutomata.Proofs.Regex.Draft
import RegexAutomata.Regex.Machine

/-!
# The stacks of a draft, and what reductions make of them

A draft says exactly what is on the two stacks of the machine that has read it. A term under
way has an operand for each of its factors and a concatenation mark between each two; a
finished alternative has the same, under an alternation mark; and a group that is still open
lies, under its mark, on the stacks of what stands around it (`Draft.machine`).

Reducing such a stack group by group gives the automaton of the regex that the group holds
(`steps_regex`). Two things have to be seen on the way:

* the concatenation marks on top are taken off one by one, so that the factors are joined from
  the right, while a phrase joins them from the left. `Automaton.append_assoc` makes that the
  same automaton;
* an alternation mark has a whole run of concatenations below it, and the run ends exactly
  where the term ends, because below a term there is never another concatenation mark.

Closing a group and draining the stacks at the end take the same steps (`Step`), so both are
settled by one chain of steps for each group.
-/

namespace RegexAutomata

/-! ## The stacks of a draft -/

namespace Phrase

/-- The concatenation marks between the factors of a term. Any other phrase is one operand, with
nothing to be joined. -/
def pendingMarks {rank : Rank} : Phrase rank → List Mark
  | .followed term _ => .concatenation :: term.pendingMarks
  | _ => []

/-- The automata of the factors of a term, the last on top; the automaton of any other phrase. -/
def pendingOperands {rank : Rank} : Phrase rank → List Automaton
  | .followed term factor => factor.automaton :: term.pendingOperands
  | phrase => [phrase.automaton]

end Phrase

namespace Layer

def finishedMarks (finished : List (Phrase .term)) : List Mark :=
  finished.flatMap fun term => .alternation :: term.pendingMarks

def finishedOperands (finished : List (Phrase .term)) : List Automaton :=
  finished.flatMap Phrase.pendingOperands

/-- The marks of a group, above its own mark. -/
def marks (l : Layer) : List Mark :=
  (match l.current with
    | none => []
    | some term => term.pendingMarks) ++ finishedMarks l.finished

def operands (l : Layer) : List Automaton :=
  (match l.current with
    | none => []
    | some term => term.pendingOperands) ++ finishedOperands l.finished

/-- The marks of a group when one more operand is about to come. -/
def marksBefore (l : Layer) : List Mark :=
  if l.current.isSome then .concatenation :: l.marks else l.marks

theorem marks_push (l : Layer) (factor : Phrase .factor) :
    (l.push factor).marks = l.marksBefore := by
  unfold marksBefore marks push extend
  cases l.current <;> rfl

theorem operands_push (l : Layer) (factor : Phrase .factor) :
    (l.push factor).operands = factor.automaton :: l.operands := by
  unfold operands push extend
  cases l.current <;> rfl

end Layer

namespace Draft

/-- The marks around the innermost group, the mark of the group on top. -/
def outerMarks (outer : List Layer) : List Mark :=
  outer.flatMap fun layer => .group :: layer.marksBefore

def outerOperands (outer : List Layer) : List Automaton :=
  outer.flatMap Layer.operands

/-- The machine that has read the draft. -/
def machine (regex : String) (d : Draft) : Machine where
  regex := regex
  marks := d.inner.marks ++ outerMarks d.outer
  operands := d.inner.operands ++ outerOperands d.outer
  afterOperand := d.inner.current.isSome
  openGroups := d.outer.length

/-- Below the marks of a group there is never a concatenation mark. -/
theorem head?_outerMarks (outer : List Layer) : (outerMarks outer).head? ≠ some .concatenation := by
  cases outer with
  | nil => exact fun h => absurd h (by decide)
  | cons layer outer => exact fun h => absurd h (by simp [outerMarks])

end Draft

/-! ## The automata of phrases -/

theorem Phrase.constructed_automaton {rank : Rank} (p : Phrase rank) : p.automaton.Constructed := by
  induction p with
  | literal c _ => exact .single c
  | group inner ih => exact ih
  | plain atom ih => exact ih
  | starred factor ih => exact .star ih
  | alone factor ih => exact ih
  | followed term factor ih ih' => exact .append ih ih'
  | only term ih => exact ih
  | either term others ih ih' => exact .alternate ih ih'

theorem Phrase.isFragment_automaton {rank : Rank} (p : Phrase rank) : p.automaton.IsFragment :=
  p.constructed_automaton.isFragment

namespace Automaton

theorem appendAll?_concat {automata : List Automaton} (h : automata ≠ []) (last : Automaton) :
    appendAll? (automata ++ [last]) = (appendAll? automata).bind (append? · last) := by
  match automata, h with
  | first :: others, _ =>
    show (others ++ [last]).foldlM append? first = _
    rw [List.foldlM_append]
    show (others.foldlM append? first).bind _ = (others.foldlM append? first).bind _
    congr 1
    funext joined
    exact bind_pure _

end Automaton

namespace Phrase

/-- The operands of a term, joined from the left, are its automaton. -/
theorem appendAll?_pendingOperands (term : Phrase .term) :
    Automaton.appendAll? term.pendingOperands.reverse = .ok term.automaton := by
  match term with
  | .alone factor => rfl
  | .followed term factor =>
    have hne : term.pendingOperands.reverse ≠ [] := by
      cases term <;> simp [pendingOperands]
    rw [pendingOperands, List.reverse_cons, Automaton.appendAll?_concat hne,
      appendAll?_pendingOperands term]
    exact Automaton.append?_eq_ok term.isFragment_automaton.states_ne_nil _

theorem pendingMarks_eq_replicate (term : Phrase .term) :
    term.pendingMarks = List.replicate term.pendingMarks.length .concatenation := by
  match term with
  | .alone factor => rfl
  | .followed term factor =>
    rw [pendingMarks, List.length_cons, List.replicate_succ, ← pendingMarks_eq_replicate term]

/-- There is one operand more than there are marks between them. -/
theorem length_pendingOperands (term : Phrase .term) :
    term.pendingOperands.length = term.pendingMarks.length + 1 := by
  match term with
  | .alone factor => rfl
  | .followed term factor =>
    rw [pendingOperands, pendingMarks, List.length_cons, List.length_cons,
      length_pendingOperands term]

end Phrase

/-! ## Runs of concatenation marks -/

/-- A run of concatenation marks ends where another mark begins. -/
theorem split_run (n : Nat) {below : List Mark} (h : below.head? ≠ some .concatenation) :
    (List.replicate n Mark.concatenation ++ below).takeWhile (· = .concatenation)
        = List.replicate n .concatenation ∧
      (List.replicate n Mark.concatenation ++ below).dropWhile (· = .concatenation) = below := by
  have hrun : ∀ mark ∈ List.replicate n Mark.concatenation,
      decide (mark = .concatenation) = true := by
    intro mark hmark
    exact decide_eq_true (List.eq_of_mem_replicate hmark)
  rw [List.takeWhile_append_of_pos hrun, List.dropWhile_append_of_pos hrun]
  cases below with
  | nil => exact ⟨List.append_nil _, rfl⟩
  | cons mark others =>
    have hmark : mark ≠ .concatenation := fun heq => h (congrArg some heq)
    rw [List.takeWhile_cons_of_neg (by simpa using hmark),
      List.dropWhile_cons_of_neg (by simpa using hmark)]
    exact ⟨List.append_nil _, rfl⟩

namespace Machine

/-- A choice with a run of concatenation marks on top, as one equation. -/
theorem choose_run (m : Machine) (n : Nat) {below : List Mark}
    (hbelow : below.head? ≠ some .concatenation) (right : Automaton) (others : List Automaton)
    (position : Int) :
    choose { m with
        marks := List.replicate n .concatenation ++ below
        operands := right :: others } position
      = if others.length < n + 1 then .error (m.fault .noOperand position)
        else (Automaton.appendAll? (others.take (n + 1)).reverse).map fun left =>
          { m with marks := below, operands := left.alternate right :: others.drop (n + 1) } := by
  simp only [choose, split_run n hbelow, List.length_replicate]
  rfl

/-! ## Steps -/

/-- A reduction by a mark that is no group mark, of a machine that has operands. -/
def Step (position : Int) (m m' : Machine) : Prop :=
  ∃ mark below, m.marks = mark :: below ∧ mark ≠ .group ∧ m.operands ≠ [] ∧
    m.reduce position = .ok m'

variable {position : Int} {m m' : Machine}

theorem closeGroup_of_nil (hmarks : m.marks = []) :
    (m.closeGroup position).result = .error .emptySequence := by
  rw [closeGroup]
  split
  · rfl
  · next hcons =>
    rw [hmarks] at hcons
    contradiction

theorem closeGroup_of_group {below : List Mark} (hmarks : m.marks = .group :: below) :
    (m.closeGroup position).result = .ok { m with marks := below } := by
  rw [closeGroup]
  split
  · next hnil =>
    rw [hnil] at hmarks
    contradiction
  · next hcons =>
    rw [hcons] at hmarks
    injection hmarks with htop hrest
    subst htop hrest
    rfl

/-- Behind any mark but its own, closing a group goes on with what the reduction leaves. -/
theorem result_closeGroup_cons {mark : Mark} {below : List Mark} (hmarks : m.marks = mark :: below)
    (hne : mark ≠ .group) :
    (m.closeGroup position).result
      = (m.reduce position).bind fun next => (next.closeGroup position).result := by
  rw [closeGroup]
  split
  · next hnil =>
    rw [hnil] at hmarks
    contradiction
  · next top rest hcons =>
    rw [hcons] at hmarks
    injection hmarks with htop hrest
    subst htop
    rw [if_neg hne, Logged.result_after]
    split
    · next fault hfault =>
      rw [hfault]
      rfl
    · next next hnext =>
      rw [hnext]
      rfl

theorem drain_of_nil (hmarks : m.marks = []) : (m.drain position).result = .ok m := by
  rw [drain]
  split
  · rfl
  · next hcons =>
    rw [hmarks] at hcons
    contradiction

/-- As long as there are marks and operands, draining goes on with what the reduction leaves. -/
theorem result_drain_cons {mark : Mark} {below : List Mark} (hmarks : m.marks = mark :: below)
    (hoperands : m.operands ≠ []) :
    (m.drain position).result
      = (m.reduce position).bind fun next => (next.drain position).result := by
  rw [drain]
  split
  · next hnil =>
    rw [hnil] at hmarks
    contradiction
  · next top rest hcons =>
    rw [if_neg (by simpa using hoperands), Logged.result_after]
    split
    · next fault hfault =>
      rw [hfault]
      rfl
    · next next hnext =>
      rw [hnext]
      rfl

theorem result_closeGroup_of_step (h : Step position m m') :
    (m.closeGroup position).result = (m'.closeGroup position).result := by
  obtain ⟨mark, below, hmarks, hne, -, hreduce⟩ := h
  rw [result_closeGroup_cons hmarks hne, hreduce]
  rfl

theorem result_drain_of_step (h : Step position m m') :
    (m.drain position).result = (m'.drain position).result := by
  obtain ⟨mark, below, hmarks, -, hoperands, hreduce⟩ := h
  rw [result_drain_cons hmarks hoperands, hreduce]
  rfl

theorem result_closeGroup_of_steps (h : Relation.ReflTransGen (Step position) m m') :
    (m.closeGroup position).result = (m'.closeGroup position).result := by
  induction h with
  | refl => rfl
  | tail _ hstep ih => rw [ih, result_closeGroup_of_step hstep]

theorem result_drain_of_steps (h : Relation.ReflTransGen (Step position) m m') :
    (m.drain position).result = (m'.drain position).result := by
  induction h with
  | refl => rfl
  | tail _ hstep ih => rw [ih, result_drain_of_step hstep]

section Steps

variable (position : Int) (m : Machine) (below : List Mark) (rest : List Automaton)

/-- A concatenation mark joins the two operands on top. -/
theorem step_concatenation {l : Automaton} (hl : l.states ≠ []) (r : Automaton) :
    Step position { m with marks := .concatenation :: below, operands := r :: l :: rest }
      { m with marks := below, operands := l.append r :: rest } := by
  refine ⟨.concatenation, below, rfl, by decide, List.cons_ne_nil _ _, ?_⟩
  show (l.append? r).map _ = _
  rw [Automaton.append?_eq_ok hl]
  rfl

/-- An alternation mark takes the whole term to its left. -/
theorem step_alternation (hbelow : below.head? ≠ some .concatenation) (term : Phrase .term)
    (r : Automaton) :
    Step position
      { m with
        marks := .alternation :: (term.pendingMarks ++ below)
        operands := r :: (term.pendingOperands ++ rest) }
      { m with marks := below, operands := term.automaton.alternate r :: rest } := by
  refine ⟨.alternation, term.pendingMarks ++ below, rfl, by decide, List.cons_ne_nil _ _, ?_⟩
  -- the run of the mark is the term: what is below begins with another mark
  rw [term.pendingMarks_eq_replicate]
  show choose { m with
    marks := List.replicate term.pendingMarks.length .concatenation ++ below
    operands := r :: (term.pendingOperands ++ rest) } position = _
  rw [choose_run m _ hbelow, ← term.length_pendingOperands, List.take_left, List.drop_left,
    if_neg (by rw [List.length_append]; omega), term.appendAll?_pendingOperands]
  rfl

/-- The marks of a term join what stands on top to the factors of the term. The joining goes
from the right to the left, and associativity puts it back into the order of the tree. -/
theorem steps_pending (term : Phrase .term) (r : Automaton) :
    Relation.ReflTransGen (Step position)
      { m with
        marks := .concatenation :: (term.pendingMarks ++ below)
        operands := r :: (term.pendingOperands ++ rest) }
      { m with marks := below, operands := term.automaton.append r :: rest } := by
  match term with
  | .alone factor =>
    exact .single
      (step_concatenation position m below rest factor.isFragment_automaton.states_ne_nil r)
  | .followed term factor =>
    have hfactor := factor.isFragment_automaton
    -- the last factor joins what is on top, and then the term before it joins both
    have hstep := step_concatenation position m (.concatenation :: (term.pendingMarks ++ below))
      (term.pendingOperands ++ rest) hfactor.states_ne_nil r
    have hrest := steps_pending term (factor.automaton.append r)
    rw [← Automaton.append_assoc r hfactor.two_le_size] at hrest
    exact hrest.head hstep

theorem steps_term (term : Phrase .term) :
    Relation.ReflTransGen (Step position)
      { m with marks := term.pendingMarks ++ below, operands := term.pendingOperands ++ rest }
      { m with marks := below, operands := term.automaton :: rest } := by
  cases term with
  | alone factor => exact .refl
  | followed term factor => exact steps_pending position m below rest term factor.automaton

/-- Finished alternatives are chosen from one by one, and the last becomes the outermost. -/
theorem steps_finished (hbelow : below.head? ≠ some .concatenation)
    (finished : List (Phrase .term)) :
    ∀ others : Phrase .regex, Relation.ReflTransGen (Step position)
      { m with
        marks := Layer.finishedMarks finished ++ below
        operands := others.automaton :: (Layer.finishedOperands finished ++ rest) }
      { m with marks := below, operands := (Phrase.choice finished others).automaton :: rest } := by
  -- the choice made so far is the last alternative for the next one
  induction finished with
  | nil => intro others; exact .refl
  | cons term before ih =>
    intro others
    have hhead : (Layer.finishedMarks before ++ below).head? ≠ some .concatenation := by
      cases before with
      | nil => exact hbelow
      | cons _ _ => exact fun h => absurd h (by simp [Layer.finishedMarks])
    have hstep := step_alternation position m _ (Layer.finishedOperands before ++ rest) hhead term
      others.automaton
    simp only [Layer.finishedMarks, Layer.finishedOperands, List.flatMap_cons, List.cons_append,
      List.append_assoc] at hstep ih ⊢
    exact (ih (.either term others)).head hstep

/-- **The stacks of a group become the automaton of the regex in it.** -/
theorem steps_regex (hbelow : below.head? ≠ some .concatenation) {l : Layer} {p : Phrase .regex}
    (hp : l.regex? = some p) :
    Relation.ReflTransGen (Step position)
      { m with marks := l.marks ++ below, operands := l.operands ++ rest }
      { m with marks := below, operands := p.automaton :: rest } := by
  obtain ⟨term, hterm, rfl⟩ := Option.map_eq_some_iff.mp hp
  have hfirst := steps_term position m (Layer.finishedMarks l.finished ++ below)
    (Layer.finishedOperands l.finished ++ rest) term
  have hothers := steps_finished position m below rest hbelow l.finished (.only term)
  simp only [Layer.marks, Layer.operands, hterm, List.append_assoc]
  exact hfirst.trans hothers

end Steps

/-! ## Closing and draining -/

/-- Closing a group leaves its automaton on the operands and takes its mark off. -/
theorem result_closeGroup (position : Int) (m : Machine) (below : List Mark)
    (rest : List Automaton) {l : Layer} {p : Phrase .regex} (hp : l.regex? = some p) :
    (closeGroup { m with marks := l.marks ++ .group :: below, operands := l.operands ++ rest }
        position).result
      = .ok { m with marks := below, operands := p.automaton :: rest } := by
  have hsteps := steps_regex position m (.group :: below) rest
    (fun h => absurd h (by simp)) hp
  rw [result_closeGroup_of_steps hsteps, closeGroup]
  rfl

/-- Draining leaves the automaton of the whole regex, whose open groups end with it. -/
theorem result_drain (position : Int) (m : Machine) (outer : List Layer) :
    ∀ (l : Layer) (p : Phrase .regex), l.regex? = some p →
      (drain { m with
          marks := l.marks ++ Draft.outerMarks outer
          operands := l.operands ++ Draft.outerOperands outer } position).result
        = .ok { m with marks := [], operands := [(Draft.wrap p outer).automaton] } := by
  induction outer with
  | nil =>
    intro l p hp
    have hsteps := steps_regex position m [] [] (fun h => absurd h (by simp)) hp
    rw [Draft.outerMarks, Draft.outerOperands, List.flatMap_nil, List.flatMap_nil,
      result_drain_of_steps hsteps, drain]
    rfl
  | cons layer outer ih =>
    intro l p hp
    have hsteps := steps_regex position m (Draft.outerMarks (layer :: outer))
      (Draft.outerOperands (layer :: outer)) (Draft.head?_outerMarks _) hp
    rw [result_drain_of_steps hsteps]
    -- the group ends: its mark is dropped, and it is one more factor of what is around it
    have hnext := ih (layer.push (.plain (.group p))) _ rfl
    rw [Layer.marks_push, Layer.operands_push] at hnext
    rw [drain]
    exact hnext

end Machine

end RegexAutomata
