import RegexAutomata.Proofs.Regex.Reduction
import RegexAutomata.Regex.Compile

/-!
# The machine reads drafts

The machine and the drafts read in step: a character takes the machine of a draft to the
machine of the next draft, and where the draft cannot go on, the machine reports the same cause
(`result_shift`). So what the machine does with a text is what the draft of the text says:
`result_scan_of_read` up to the end, `result_scan_of_fault` where the reading stops, and
`result_finish` at the end.

`build_of_read` and `build_of_fault` put this together for `build`, and `build_eq_ok_iff` says
when an automaton is built, and which.
-/

namespace RegexAutomata

namespace Draft

/-- What the machine reports of a draft, or of the cause why there is none. -/
def outcome (regex : String) (position : Int) : Except Cause Draft → Except Fault Machine
  | .ok d => .ok (d.machine regex)
  | .error cause => .error (.regex cause regex position)

theorem marksBeforeOperand_machine (regex : String) (d : Draft) :
    (d.machine regex).marksBeforeOperand = d.inner.marksBefore ++ outerMarks d.outer := by
  unfold Machine.marksBeforeOperand machine Layer.marksBefore
  cases d.inner.current <;> rfl

theorem machine_push (regex : String) (l : Layer) (outer : List Layer) (factor : Phrase .factor) :
    (Draft.mk (l.push factor) outer).machine regex =
      { (Draft.mk l outer).machine regex with
        marks := l.marksBefore ++ outerMarks outer
        operands := factor.automaton :: (l.operands ++ outerOperands outer)
        afterOperand := true } := by
  unfold machine
  rw [Layer.marks_push, Layer.operands_push]
  rfl

/-- The last factor of a term is its top operand, and a star changes nothing but that. -/
theorem pending_starLast (term : Phrase .term) :
    term.starLast.pendingMarks = term.pendingMarks ∧
      ∃ top below, term.pendingOperands = top :: below ∧
        term.starLast.pendingOperands = top.star :: below := by
  cases term with
  | alone factor => exact ⟨rfl, factor.automaton, [], rfl, rfl⟩
  | followed term factor => exact ⟨rfl, factor.automaton, term.pendingOperands, rfl, rfl⟩

theorem afterOperand_machine (regex : String) (d : Draft) :
    (d.machine regex).afterOperand = d.inner.current.isSome := rfl

variable (regex : String) (d : Draft) (position : Int)

theorem takeLiteral_machine {c : Char} (hlit : Symbol.isLiteral c = true) :
    (.ok ((d.machine regex).takeLiteral c)) = outcome regex position (d.take c) := by
  rw [take_literal d hlit, outcome, machine_push, Machine.takeLiteral, marksBeforeOperand_machine]
  rfl

theorem takeStar_machine :
    (d.machine regex).takeStar position = outcome regex position (d.take '*') := by
  rw [take_star, Machine.takeStar, afterOperand_machine]
  cases hterm : d.inner.current with
  | none => rfl
  | some term =>
    obtain ⟨hmarks, top, below, htop, hstarred⟩ := pending_starLast term
    simp only [outcome, machine, Machine.takeTop, Layer.marks, Layer.operands, hterm, htop,
      hstarred, hmarks, List.cons_append]
    rfl

theorem takeBar_machine :
    (d.machine regex).takeBar position = outcome regex position (d.take '|') := by
  rw [take_bar, Machine.takeBar, afterOperand_machine]
  cases hterm : d.inner.current with
  | none => rfl
  | some term =>
    simp only [outcome, machine, Layer.marks, Layer.operands, hterm, Layer.finishedMarks,
      Layer.finishedOperands, List.flatMap_cons, List.nil_append, List.cons_append]
    rfl

theorem takeOpening_machine :
    (.ok (d.machine regex).takeOpening) = outcome regex position (d.take '(') := by
  rw [take_opening, Machine.takeOpening, marksBeforeOperand_machine]
  simp only [outcome, machine, List.length_cons, Int.natCast_add]
  rfl

theorem takeClosing_machine :
    ((d.machine regex).takeClosing position).result = outcome regex position (d.take ')') := by
  obtain ⟨inner, outer⟩ := d
  rw [take_closing, Machine.takeClosing, afterOperand_machine]
  cases outer with
  | nil => rfl
  | cons layer outer =>
    -- the machine counts with integers what is a length here
    have hcount : ((layer :: outer).length : Int) - 1 = outer.length := by
      rw [List.length_cons]
      omega
    have hopen : ¬ ((Draft.mk inner (layer :: outer)).machine regex).openGroups = 0 := by
      show ¬ ((layer :: outer).length : Int) = 0
      rw [List.length_cons]
      omega
    rw [if_neg hopen]
    cases hterm : inner.current with
    | none =>
      simp only [Layer.regex?, hterm]
      rfl
    | some term =>
      have hp : inner.regex? = some (.choice inner.finished (.only term)) := by
        rw [Layer.regex?, hterm]
        rfl
      -- the mark of the group is the one below its own marks
      have hclose := Machine.result_closeGroup position
        { (Draft.mk inner (layer :: outer)).machine regex with openGroups := outer.length }
        (layer.marksBefore ++ outerMarks outer) (layer.operands ++ outerOperands outer) hp
      simp only [hp, outcome, machine_push]
      simp only [machine, hterm, hcount, Option.isSome_some, Bool.not_true, Bool.false_eq_true,
        if_false] at hclose ⊢
      exact hclose

/-- **One step.** The machine of a draft takes a character in as the draft does. -/
theorem result_shift (c : Char) :
    ((d.machine regex).shift (.ofChar c) position).result = outcome regex position (d.take c) := by
  unfold Machine.shift
  rw [Logged.result_after]
  by_cases hlit : Symbol.isLiteral c = true
  · rw [Token.ofChar, if_pos hlit, ← takeLiteral_machine regex d position hlit]
    rfl
  by_cases hstar : c = '*'
  · subst hstar
    exact takeStar_machine regex d position
  by_cases hbar : c = '|'
  · subst hbar
    exact takeBar_machine regex d position
  by_cases hopening : c = '('
  · subst hopening
    exact takeOpening_machine regex d position
  by_cases hclosing : c = ')'
  · subst hclosing
    exact takeClosing_machine regex d position
  rw [Token.ofChar, if_neg hlit, if_neg hstar, if_neg hbar, if_neg hopening, if_neg hclosing,
    take, dif_neg hlit, if_neg hstar, if_neg hbar, if_neg hopening, if_neg hclosing]
  rfl

end Draft

/-! ## A whole scan -/

theorem Machine.result_scan_append (xs ys : List Char) :
    ∀ (m : Machine) (position : Nat),
      (m.scan position (xs ++ ys)).result
        = (m.scan position xs).result.bind fun next =>
            (next.scan (position + xs.length) ys).result := by
  induction xs with
  | nil => intro m position; rfl
  | cons c xs ih =>
    intro m position
    rw [List.cons_append, Machine.scan, Machine.scan, Logged.result_andThen, Logged.result_andThen]
    cases (m.shift (.ofChar c) position).result with
    | error fault => rfl
    | ok next =>
      show (next.scan (position + 1) (xs ++ ys)).result = _
      rw [ih, List.length_cons, show position + 1 + xs.length = position + (xs.length + 1) from by
        omega]
      rfl

namespace Draft

/-- As long as there is a draft, the scan leaves its machine. -/
theorem result_scan_of_read (regex : String) {cs : List Char} {d d' : Draft}
    (h : d.read cs = .ok d') :
    ∀ position : Nat,
      ((d.machine regex).scan position cs).result = .ok (d'.machine regex) := by
  induction h using read_induction with
  | nil =>
    intro position
    rfl
  | cons htake _ ih =>
    intro position
    rw [Machine.scan, Logged.result_andThen, result_shift, htake]
    exact ih (position + 1)

/-- Where the draft ends, so does the scan, whatever follows. -/
theorem result_scan_of_fault (regex : String) {d d' : Draft} {cs rest : List Char} {c : Char}
    {cause : Cause} (position : Nat) (hread : d.read cs = .ok d')
    (htake : d'.take c = .error cause) :
    ((d.machine regex).scan position (cs ++ c :: rest)).result
      = .error (.regex cause regex (position + cs.length : Nat)) := by
  rw [Machine.result_scan_append, result_scan_of_read regex hread position]
  show ((d'.machine regex).scan (position + cs.length) (c :: rest)).result = _
  rw [Machine.scan, Logged.result_andThen, result_shift, htake]
  rfl

/-- At the end there is the automaton of the regex, if the draft can end. -/
theorem result_finish (regex : String) (d : Draft) (position : Int) :
    ((d.machine regex).finish position).result = match d.whole? with
      | none => .error (.regex .missingRight regex position)
      | some p => .ok p.automaton := by
  rw [Machine.finish, afterOperand_machine, whole?]
  cases hp : d.inner.regex? with
  | none =>
    rw [Option.map_eq_none_iff.mp hp]
    rfl
  | some p =>
    obtain ⟨term, hterm, -⟩ := Option.map_eq_some_iff.mp hp
    have hdrain : ((d.machine regex).drain position).result
        = .ok { d.machine regex with marks := [], operands := [(wrap p d.outer).automaton] } :=
      Machine.result_drain position (d.machine regex) d.outer d.inner p hp
    rw [hterm]
    show Logged.result (Logged.andThen _ _) = _
    rw [Logged.result_andThen, hdrain]
    rfl

/-- Every text is read to its end, or up to a character that the draft before it refuses. -/
theorem read_cases (cs : List Char) :
    ∀ d : Draft, (∃ d', d.read cs = .ok d') ∨
      ∃ before c after d' cause, cs = before ++ c :: after ∧ d.read before = .ok d' ∧
        d'.take c = .error cause := by
  induction cs with
  | nil => intro d; exact .inl ⟨d, rfl⟩
  | cons c cs ih =>
    intro d
    cases hnext : d.take c with
    | error cause => exact .inr ⟨[], c, cs, d, cause, rfl, rfl, hnext⟩
    | ok next =>
      rcases ih next with ⟨d', hread⟩ | ⟨before, e, after, d', cause, rfl, hread, htake⟩
      · exact .inl ⟨d', read_cons_eq_ok.mpr ⟨next, hnext, hread⟩⟩
      · exact .inr ⟨c :: before, e, after, d', cause, rfl,
          read_cons_eq_ok.mpr ⟨next, hnext, hread⟩, htake⟩

theorem isKnown_of_take {d d' : Draft} {c : Char} (h : d.take c = .ok d') :
    Symbol.isKnown c = true := by
  cases taken_of_take h with
  | literal hlit =>
    rw [Symbol.isKnown, hlit]
    rfl
  | star _ => rfl
  | bar _ => rfl
  | opening => rfl
  | closing _ _ => rfl

theorem isKnown_of_read {cs : List Char} {d d' : Draft} (h : d.read cs = .ok d') :
    ∀ c ∈ cs, Symbol.isKnown c = true := by
  induction h using read_induction with
  | nil =>
    intro c hc
    exact absurd hc List.not_mem_nil
  | cons htake _ ih =>
    intro c hc
    rcases List.mem_cons.mp hc with heq | hc
    · rw [heq]
      exact isKnown_of_take htake
    · exact ih c hc

end Draft

/-! ## Building -/

theorem firstStray_eq_none_iff (cs : List Char) :
    firstStray cs = none ↔ ∀ c ∈ cs, Symbol.isKnown c = true := by
  induction cs with
  | nil => exact ⟨fun _ c hc => absurd hc List.not_mem_nil, fun _ => rfl⟩
  | cons c cs ih =>
    rw [firstStray, List.forall_mem_cons]
    by_cases hc : Symbol.isKnown c = true
    · rw [if_pos hc, Option.map_eq_none_iff, ih]
      exact (and_iff_right hc).symm
    · rw [if_neg hc]
      exact ⟨fun h => absurd h (by simp), fun h => absurd h.1 hc⟩

section Build

variable {w : String}

/-- A text of symbols is scanned and finished. -/
theorem buildLogged_of_known (hne : w ≠ "") (hknown : ∀ c ∈ w.toList, Symbol.isKnown c = true) :
    buildLogged w
      = ((Machine.start w).scan 0 w.toList).andThen fun read => read.finish w.length := by
  rw [buildLogged, if_neg (by rwa [String.isEmpty_iff]), (firstStray_eq_none_iff _).mpr hknown]

theorem build_of_known (hne : w ≠ "") (hknown : ∀ c ∈ w.toList, Symbol.isKnown c = true) :
    build w = ((Machine.start w).scan 0 w.toList).result.bind fun m =>
      (m.finish w.length).result := by
  rw [build, buildLogged_of_known hne hknown, Logged.result_andThen]

/-- A stray character is noticed before anything is read. -/
theorem build_of_stray (hne : w ≠ "") {index : Nat} {stray : Char}
    (hstray : firstStray w.toList = some (index, stray)) :
    build w = .error (.regex (.strayText (String.singleton stray)) w index) := by
  rw [build, buildLogged, if_neg (by rwa [String.isEmpty_iff]), hstray]
  rfl

theorem machine_start (w : String) : Draft.start.machine w = Machine.start w := rfl

/-- A text that has a draft builds what the draft ends as. -/
theorem build_of_read (hne : w ≠ "") {d : Draft} (hread : Draft.start.read w.toList = .ok d) :
    build w = match d.whole? with
      | none => .error (.regex .missingRight w w.length)
      | some p => .ok p.automaton := by
  rw [build_of_known hne (Draft.isKnown_of_read hread), ← machine_start,
    Draft.result_scan_of_read w hread 0]
  exact Draft.result_finish w d w.length

/-- A text of symbols that has no draft fails where its draft ends, with the cause that the
draft gives. -/
theorem build_of_fault (hknown : ∀ c ∈ w.toList, Symbol.isKnown c = true) {d : Draft}
    {before after : List Char} {c : Char} {cause : Cause} (hw : w.toList = before ++ c :: after)
    (hread : Draft.start.read before = .ok d) (htake : d.take c = .error cause) :
    build w = .error (.regex cause w before.length) := by
  have hne : w ≠ "" := by
    intro heq
    subst heq
    exact absurd hw.symm (by simp)
  rw [build_of_known hne hknown, ← machine_start, hw,
    Draft.result_scan_of_fault w 0 hread htake, Nat.zero_add]
  rfl

/-- **What is built.** An automaton is built iff the text has a draft that can end, and it is
the automaton of the regex that the draft ends as. -/
theorem build_eq_ok_iff {a : Automaton} :
    build w = .ok a ↔
      ∃ d p, Draft.start.read w.toList = .ok d ∧ d.whole? = some p ∧ p.automaton = a := by
  constructor
  · intro h
    by_cases hne : w = ""
    · subst hne
      contradiction
    by_cases hknown : ∀ c ∈ w.toList, Symbol.isKnown c = true
    · rcases Draft.read_cases w.toList Draft.start with
        ⟨d, hread⟩ | ⟨before, c, after, d, cause, hw, hread, htake⟩
      · rw [build_of_read hne hread] at h
        cases hp : d.whole? with
        | none =>
          rw [hp] at h
          contradiction
        | some p =>
          rw [hp] at h
          injection h with ha
          exact ⟨d, p, hread, hp, ha⟩
      · rw [build_of_fault hknown hw hread htake] at h
        contradiction
    · rw [← firstStray_eq_none_iff, ← ne_eq, Option.ne_none_iff_exists'] at hknown
      obtain ⟨⟨index, stray⟩, hstray⟩ := hknown
      rw [build_of_stray hne hstray] at h
      contradiction
  · intro h
    obtain ⟨d, p, hread, hp, rfl⟩ := h
    have hne : w ≠ "" := by
      intro heq
      subst heq
      cases hread
      contradiction
    rw [build_of_read hne hread, hp]

end Build

end RegexAutomata
