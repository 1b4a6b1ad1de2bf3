import Mathlib.Data.List.Infix
import RegexAutomata.Proofs.Regex.Diagnosis
import RegexAutomata.Proofs.Regex.Waiting

/-!
# A group minds its own business

The stack of operands has no marks on it. That the reductions of a group take no operand of what
stands around it is a matter of numbers: above the mark of the group there are only marks that
wait for two operands, and there are more operands of the group than such marks. `RestsOn` says
so. It is a matter of what lies beyond the waiting marks and below the operands that these work on
(`RestsOn.iff_base`), and no reduction of a group changes anything there.

For drafts the same is plain. What stands around a group is not looked at before the group is
closed, so a text whose parentheses match reads inside a group as it reads by itself
(`Draft.read_above`).

Main result: `group_isolated`.
-/

namespace RegexAutomata

/-! ## Reductions inside a group -/

namespace Machine

/-- The stacks of a group that lies on other marks and operands: its own marks wait for operands,
its operands are more than those marks, and its own group mark is in between. -/
inductive RestsOn (below : List Mark) (rest : List Automaton) (m : Machine) : Prop where
  | intro (own : List Mark) (top : List Automaton) (hmarks : m.marks = own ++ .group :: below)
      (hwaiting : ∀ mark ∈ own, mark.isWaiting = true) (hoperands : m.operands = top ++ rest)
      (hlength : own.length < top.length) : RestsOn below rest m

namespace RestsOn

variable {below : List Mark} {rest : List Automaton} {m m' : Machine} {position : Int}

theorem suffix (h : RestsOn below rest m) : rest <:+ m.operands := by
  obtain ⟨own, top, -, -, hoperands, -⟩ := h
  rw [hoperands]
  exact List.suffix_append _ _

/-- The group mark is the first that waits for nothing, and what the group lies on is below the
operands that its marks work on. -/
theorem iff_base : RestsOn below rest m ↔ m.beyond = .group :: below ∧
    m.waiting.length < m.operands.length ∧ rest <:+ m.untouched := by
  constructor
  · intro h
    obtain ⟨own, top, hmarks, hwaiting, hoperands, hlength⟩ := h
    obtain ⟨hown, hbeyond⟩ := split_marks_group hmarks hwaiting
    refine ⟨hbeyond, ?_, ?_⟩
    · rw [hown, hoperands, List.length_append]
      exact Nat.lt_add_right _ hlength
    · rw [untouched, hown, hoperands, List.drop_append_of_le_length hlength]
      exact List.suffix_append _ _
  · intro h
    obtain ⟨hbeyond, hlength, more, hmore⟩ := h
    refine .intro m.waiting (m.operands.take (m.waiting.length + 1) ++ more) ?_
      (fun _ => isWaiting_of_mem_waiting) ?_ ?_
    · rw [← hbeyond, waiting_append_beyond]
    · rw [List.append_assoc, hmore, untouched, List.take_append_drop]
    · rw [List.length_append, List.length_take_of_le hlength]
      omega

/-- **All reductions of a group.** What the group lies on is left alone. -/
theorem steps (h : RestsOn below rest m) (hsteps : Relation.ReflTransGen (Step position) m m') :
    RestsOn below rest m' := by
  obtain ⟨hbeyond, hlength, hrest⟩ := iff_base.mp h
  have hbase := sameBase_of_steps hsteps
  have hcount := hbase.length_eq
  refine iff_base.mpr ⟨hbase.beyond_eq.trans hbeyond, by omega, ?_⟩
  rw [hbase.untouched_eq]
  exact hrest

end RestsOn

end Machine

/-! ## The stacks of a layer -/

namespace Phrase

theorem isWaiting_pendingMarks (term : Phrase .term) :
    ∀ mark ∈ term.pendingMarks, mark.isWaiting = true := by
  rw [term.pendingMarks_eq_replicate]
  exact isWaiting_run _

end Phrase

namespace Layer

theorem isWaiting_marks (l : Layer) : ∀ mark ∈ l.marks, mark.isWaiting = true := by
  have hfinished : ∀ mark ∈ finishedMarks l.finished, mark.isWaiting = true := by
    intro mark hmark
    obtain ⟨term, -, hmark⟩ := List.mem_flatMap.mp hmark
    rcases List.mem_cons.mp hmark with rfl | hmark
    · rfl
    · exact term.isWaiting_pendingMarks mark hmark
  intro mark hmark
  rcases List.mem_append.mp hmark with hmark | hmark
  · split at hmark
    · exact absurd hmark List.not_mem_nil
    · exact Phrase.isWaiting_pendingMarks _ mark hmark
  · exact hfinished mark hmark

theorem length_finishedMarks (finished : List (Phrase .term)) :
    (finishedMarks finished).length = (finishedOperands finished).length := by
  induction finished with
  | nil => rfl
  | cons term before ih =>
    rw [finishedMarks, finishedOperands, List.flatMap_cons, List.flatMap_cons,
      ← finishedMarks, ← finishedOperands, List.length_append, List.length_append,
      List.length_cons, term.length_pendingOperands, ih]

/-- Behind a factor a group has one operand more than it has marks. -/
theorem length_operands {l : Layer} {term : Phrase .term} (h : l.current = some term) :
    l.operands.length = l.marks.length + 1 := by
  have hfinished := length_finishedMarks l.finished
  have hterm := term.length_pendingOperands
  simp only [operands, marks, h, List.length_append]
  omega

end Layer

/-! ## Reading inside a group -/

/-- The parentheses of the text match: it closes every group that it opens, and no other. -/
def Matched (text : List Char) : Prop :=
  text.count '(' = text.count ')' ∧
    ∀ part, part <+: text → part.count ')' ≤ part.count '('

instance (text : List Char) : Decidable (Matched text) :=
  decidable_of_iff
    (text.count '(' = text.count ')' ∧
      ∀ part ∈ text.inits, part.count ')' ≤ part.count '(')
    (by simp only [Matched, List.mem_inits])

namespace Draft

theorem take_above {l : Layer} {above outer : List Layer} {c : Char} {d : Draft}
    (h : (Draft.mk l (above ++ outer)).take c = .ok d)
    (hc : [c].count ')' ≤ [c].count '(' + above.length) :
    ∃ l' above', d = ⟨l', above' ++ outer⟩ ∧ (Draft.mk l above).take c = .ok ⟨l', above'⟩ := by
  cases taken_of_take h with
  | literal hlit => exact ⟨_, above, rfl, take_literal _ hlit⟩
  | star hterm => exact ⟨_, above, rfl, by rw [take_star, hterm]⟩
  | bar hterm => exact ⟨_, above, rfl, by rw [take_bar, hterm]⟩
  | opening => exact ⟨.blank, l :: above, rfl, rfl⟩
  | closing houter hterm =>
    cases above with
    | nil => exact absurd hc (by decide)
    | cons layer above =>
      injection houter with hlayer houter
      subst hlayer houter
      exact ⟨_, above, rfl, by rw [take_closing, Layer.regex?, hterm]; rfl⟩

/-- What stands around a group does not matter to a text that does not close it. -/
theorem read_above {cs : List Char} {outer : List Layer} {d : Draft} :
    ∀ {l : Layer} (above : List Layer), (Draft.mk l (above ++ outer)).read cs = .ok d →
      (∀ part, part <+: cs → part.count ')' ≤ part.count '(' + above.length) →
      ∃ l' above', d = ⟨l', above' ++ outer⟩ ∧ (Draft.mk l above).read cs = .ok ⟨l', above'⟩ := by
  induction cs with
  | nil =>
    intro l above h _
    cases h
    exact ⟨l, above, rfl, rfl⟩
  | cons c cs ih =>
    intro l above h hcs
    obtain ⟨next, htake, hread⟩ := read_cons_eq_ok.mp h
    obtain ⟨l', above', rfl, htake'⟩ := take_above htake (hcs [c] ⟨cs, rfl⟩)
    have hlength := length_outer_take htake'
    simp only at hlength
    obtain ⟨l'', above'', hd, hread'⟩ := ih above' hread (by
      intro part hpart
      have hcount := hcs (c :: part) (List.cons_prefix_cons.mpr ⟨rfl, hpart⟩)
      rw [← List.singleton_append, List.count_append, List.count_append] at hcount
      omega)
    exact ⟨l'', above'', hd, read_cons_eq_ok.mpr ⟨_, htake', hread'⟩⟩

variable {d d' : Draft} {part : List Char} {regex : String}

/-- While a group is read, the operands in front of it lie below those of the group. -/
theorem operands_inside (hread : (Draft.mk .blank (d.inner :: d.outer)).read part = .ok d')
    (hpart : ∀ front, front <+: part → front.count ')' ≤ front.count '(') :
    (d.machine regex).operands <:+ outerOperands d'.outer := by
  obtain ⟨l, above, rfl, -⟩ := read_above [] hread hpart
  show _ <:+ outerOperands (above ++ d.inner :: d.outer)
  rw [outerOperands, List.flatMap_append, List.flatMap_cons]
  exact List.suffix_append _ _

/-- A group that can be closed lies on what stands around it. -/
theorem restsOn_machine (regex : String) {c : Draft} (hclosing : d.take ')' = .ok c)
    (openGroups : Int) :
    ∃ below, Machine.RestsOn below (outerOperands d.outer)
      { d.machine regex with openGroups := openGroups } := by
  cases taken_of_take hclosing with
  | literal hlit => exact absurd hlit (by decide)
  | @closing layer outer _ houter hterm =>
    refine ⟨layer.marksBefore ++ outerMarks outer,
      .intro d.inner.marks d.inner.operands ?_ d.inner.isWaiting_marks rfl ?_⟩
    · show d.inner.marks ++ outerMarks d.outer = _
      rw [houter]
      rfl
    · rw [Layer.length_operands hterm]
      exact Nat.lt_succ_self _

/-- No reduction of a parenthesis in the group reaches the operands in front of it. -/
theorem operands_of_closing (hread : (Draft.mk .blank (d.inner :: d.outer)).read part = .ok d')
    (hpart : ∀ front, front <+: part → front.count ')' ≤ front.count '(') {closed : Draft}
    (hclosing : d'.take ')' = .ok closed) {openGroups position : Int} {mid : Machine}
    (hsteps : Relation.ReflTransGen (Machine.Step position)
      { d'.machine regex with openGroups := openGroups } mid) :
    (d.machine regex).operands <:+ mid.operands := by
  obtain ⟨below, hrests⟩ := restsOn_machine regex hclosing openGroups
  exact (operands_inside hread hpart).trans (hrests.steps hsteps).suffix

/-- The mark in front of an operand shows in the text. -/
theorem marksBefore_eq {front : List Char} (hread : start.read front = .ok d) (rest : List Char) :
    d.inner.marksBefore ++ outerMarks d.outer
      = if OperandDue (front ++ rest) front.length then (d.machine regex).marks
        else .concatenation :: (d.machine regex).marks := by
  have hdue := operandDue_iff hread rest
  cases hcurrent : d.inner.current with
  | none =>
    rw [if_pos (hdue.mpr hcurrent), Layer.marksBefore, hcurrent]
    rfl
  | some term =>
    have hfed : ¬ OperandDue (front ++ rest) front.length := by
      rw [hdue, hcurrent]
      exact Option.some_ne_none term
    rw [if_neg hfed, Layer.marksBefore, hcurrent]
    rfl

/-- A scan that goes through has read a draft. -/
theorem exists_read_of_scan {cs : List Char} {position : Nat} {m : Machine}
    (h : ((d.machine regex).scan position cs).result = .ok m) :
    ∃ d', d.read cs = .ok d' ∧ m = d'.machine regex := by
  rcases read_cases cs d with ⟨d', hread⟩ | ⟨before, c, after, d', cause, rfl, hread, htake⟩
  · rw [result_scan_of_read regex hread position] at h
    cases h
    exact ⟨d', hread, rfl⟩
  · rw [result_scan_of_fault regex position hread htake] at h
    contradiction

/-- A group that has been read is a regex by itself, and one factor more of what stands around
it. -/
theorem exists_group {inside : List Char} (hmatched : Matched inside)
    (hread : (Draft.mk .blank (d.inner :: d.outer)).read (inside ++ [')']) = .ok d') :
    ∃ p : Phrase .regex, build (String.ofList inside) = .ok p.automaton ∧
      d' = ⟨d.inner.push (.plain (.group p)), d.outer⟩ := by
  obtain ⟨d₁, hinside, hclosing⟩ := read_append_eq_ok.mp hread
  obtain ⟨l, above, rfl, hself⟩ := read_above [] hinside hmatched.2
  -- as many groups are closed as are opened, so that none is left
  have hcount := length_outer_read hself
  rw [hmatched.1, List.length_nil, Nat.zero_add] at hcount
  have habove : above.length = 0 := by
    simp only at hcount
    omega
  obtain rfl := List.length_eq_zero_iff.mp habove
  obtain ⟨d₂, htake, hnil⟩ := read_cons_eq_ok.mp hclosing
  cases hnil
  cases taken_of_take htake with
  | literal hlit => exact absurd hlit (by decide)
  | @closing _ _ term houter hterm =>
    cases houter
    have hwhole : (Draft.mk l []).whole? = some (.choice l.finished (.only term)) := by
      rw [whole?, Layer.regex?, show l.current = some term from hterm]
      rfl
    refine ⟨.choice l.finished (.only term), build_eq_ok_iff.mpr ⟨_, _, ?_, hwhole, rfl⟩, rfl⟩
    rw [String.toList_ofList]
    exact hself

end Draft

/-- **Groups are isolated.** Let a text be scanned up to the end of a group. Then the group is a
regex by itself, and all it has done to the stacks is to put the automaton of that regex on the
operands there were before it, with a concatenation mark if an operand stood in front; no group
more is open than before. At no time, between two characters of the group or in the reductions
of a parenthesis in it, is an operand touched that was there before. -/
theorem group_isolated (w : String) (front inside back : List Char)
    (hw : w.toList = front ++ '(' :: (inside ++ ')' :: back)) (hmatched : Matched inside)
    (after : Machine)
    (hscan : ((Machine.start w).scan 0 (front ++ '(' :: (inside ++ [')']))).result = .ok after) :
    ∃ before a, ((Machine.start w).scan 0 front).result = .ok before ∧
      build (String.ofList inside) = .ok a ∧
      after.operands = a :: before.operands ∧
      after.marks = (if OperandDue w.toList front.length then before.marks
        else .concatenation :: before.marks) ∧
      after.openGroups = before.openGroups ∧ after.afterOperand = true ∧
      ∀ part, part <+: inside →
        ∃ m, ((Machine.start w).scan 0 (front ++ '(' :: part)).result = .ok m ∧
          before.operands <:+ m.operands ∧
          (part ++ [')'] <+: inside ++ [')'] → ∀ position mid,
            Relation.ReflTransGen (Machine.Step position)
              { m with openGroups := m.openGroups - 1 } mid →
            before.operands <:+ mid.operands) := by
  rw [← machine_start] at hscan ⊢
  obtain ⟨d', hread, rfl⟩ := Draft.exists_read_of_scan hscan
  obtain ⟨d, hfront, hgroup⟩ := Draft.read_append_eq_ok.mp hread
  obtain ⟨opened, htake, hrest⟩ := Draft.read_cons_eq_ok.mp hgroup
  cases htake
  obtain ⟨p, hbuild, rfl⟩ := Draft.exists_group hmatched hrest
  rw [Draft.machine_push]
  refine ⟨d.machine w, p.automaton, Draft.result_scan_of_read w hfront 0, hbuild, rfl, ?_, rfl, rfl,
    fun part hpart => ?_⟩
  · rw [hw]
    exact Draft.marksBefore_eq hfront _
  · have hbounds : ∀ first, first <+: part → first.count ')' ≤ first.count '(' :=
      fun first hfirst => hmatched.2 first (hfirst.trans hpart)
    obtain ⟨more, rfl⟩ := hpart
    rw [List.append_assoc] at hrest
    obtain ⟨d₁, hread₁, hmore⟩ := Draft.read_append_eq_ok.mp hrest
    have hpartRead : Draft.start.read (front ++ '(' :: part) = .ok d₁ :=
      Draft.read_append_eq_ok.mpr ⟨d, hfront, Draft.read_cons_eq_ok.mpr ⟨_, rfl, hread₁⟩⟩
    refine ⟨d₁.machine w, Draft.result_scan_of_read w hpartRead 0,
      (Draft.operands_inside hread₁ hbounds).trans (List.suffix_append _ _), ?_⟩
    intro hnext position mid hsteps
    -- the parenthesis behind the part has been read, too
    obtain ⟨tail, htail⟩ := hnext
    rw [List.append_assoc, List.append_assoc, List.append_cancel_left_eq] at htail
    rw [← htail] at hmore
    obtain ⟨closed, hclosing, -⟩ := Draft.read_cons_eq_ok.mp hmore
    exact Draft.operands_of_closing hread₁ hbounds hclosing hsteps

/-- A group in a group, behind an operand and with a star behind it: `a((b|c)d)*`. -/
theorem group_isolated_nested :
    ∃ before after a,
      ((Machine.start "a((b|c)d)*").scan 0 ['a']).result = .ok before ∧
      ((Machine.start "a((b|c)d)*").scan 0
        ['a', '(', '(', 'b', '|', 'c', ')', 'd', ')']).result = .ok after ∧
      build "(b|c)d" = .ok a ∧ after.operands = a :: before.operands ∧
      after.marks = .concatenation :: before.marks := by
  have hread : Draft.start.read ['a', '(', '(', 'b', '|', 'c', ')', 'd', ')'] = .ok _ := rfl
  have hscan := Draft.result_scan_of_read "a((b|c)d)*" hread 0
  obtain ⟨before, a, hbefore, hbuild, hoperands, hmarks, -⟩ :=
    group_isolated "a((b|c)d)*" ['a'] ['(', 'b', '|', 'c', ')', 'd'] ['*'] rfl (by decide) _ hscan
  exact ⟨before, _, a, hbefore, hscan, hbuild, hoperands, hmarks⟩

end RegexAutomata
