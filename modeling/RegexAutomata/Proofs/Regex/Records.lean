import RegexAutomata.Proofs.Regex.Balance
import RegexAutomata.Proofs.Regex.Forgiveness
import RegexAutomata.Proofs.Regex.Isolation

/-!
# What the journal says of the tokens

A compilation records each token before it is taken in, with the stacks as they are then. Nothing
else records tokens, so the tokens in the journal are those of the text, one for each character
(`tokens_scan_of_ok`), up to and with the one that is refused (`tokens_scan_of_error`).

The record of the character at `i` shows the machine that has read the `i` characters in front of
it (`getElem?_shifts_scan`). That machine is balanced and it is the machine of a draft, so what
the record shows can be told from the text: the group marks are the groups open there, and there
is one operand for each of the other marks and one for an operand that has just ended.

Main results: `tokens_buildLogged`, `stacks_buildLogged`.
-/

namespace RegexAutomata

/-- What is recorded of a token that is about to be taken in. -/
structure Shift where
  token : Token
  /-- The marks, bottom first. -/
  marks : List Mark
  /-- The number of operands. -/
  operands : Nat
deriving DecidableEq

namespace Record

/-- The token of a record, if it is about one, with the stacks. -/
def shift? : Record → Option Shift
  | shift token marks operands => some ⟨token, marks, operands⟩
  | _ => none

/-- The mark that was taken off, if the record is about one. -/
def reduced? : Record → Option Mark
  | reduce mark _ => some mark
  | _ => none

end Record

namespace Logged

variable {α β γ : Type}

/-- What a view finds in the journal. -/
def view (f : Record → Option γ) (x : Logged α) : List γ :=
  x.records.filterMap f

/-- The tokens of the journal. -/
def shifts (x : Logged α) : List Shift :=
  x.view Record.shift?

/-- The marks that were taken off, as far as they were recorded. -/
def reductions (x : Logged α) : List Mark :=
  x.view Record.reduced?

variable (f : Record → Option γ)

theorem view_after_of_none {record : Record} (h : f record = none) (x : Logged α) :
    (after record x).view f = x.view f :=
  List.filterMap_cons_none h

theorem view_after_of_some {record : Record} {seen : γ} (h : f record = some seen)
    (x : Logged α) : (after record x).view f = seen :: x.view f :=
  List.filterMap_cons_some h

theorem view_andThen_of_ok {x : Logged α} {a : α} (h : x.result = .ok a) (next : α → Logged β) :
    (x.andThen next).view f = x.view f ++ (next a).view f := by
  unfold andThen view
  rw [h]
  exact List.filterMap_append

theorem view_andThen_of_error {x : Logged α} {fault : Fault} (h : x.result = .error fault)
    (next : α → Logged β) : (x.andThen next).view f = x.view f := by
  unfold andThen view
  rw [h]

/-- A sequence shows nothing if no part of it does. -/
theorem view_andThen_eq_nil {x : Logged α} (hx : x.view f = []) {next : α → Logged β}
    (hnext : ∀ a, (next a).view f = []) : (x.andThen next).view f = [] := by
  cases hresult : x.result with
  | error fault => rw [view_andThen_of_error f hresult, hx]
  | ok a => rw [view_andThen_of_ok f hresult, hx, hnext a, List.nil_append]

end Logged

namespace Machine

/-! ## Tokens -/

theorem shifts_closeGroup (m : Machine) (position : Int) :
    (m.closeGroup position).shifts = [] := by
  rw [closeGroup]
  split
  · rfl
  · split
    · rfl
    · apply (Logged.view_after_of_none Record.shift? rfl _).trans
      split
      · rfl
      · next next hreduce => exact shifts_closeGroup next position
termination_by m.marks.length
decreasing_by exact marks_lt_of_reduce ‹_›

theorem shifts_drain (m : Machine) (position : Int) : (m.drain position).shifts = [] := by
  rw [drain]
  split
  · rfl
  · split
    · rfl
    · apply (Logged.view_after_of_none Record.shift? rfl _).trans
      split
      · rfl
      · next next hreduce => exact shifts_drain next position
termination_by m.marks.length
decreasing_by exact marks_lt_of_reduce ‹_›

theorem shifts_finish (m : Machine) (position : Int) : (m.finish position).shifts = [] := by
  unfold finish
  split
  · rfl
  · refine Logged.view_andThen_eq_nil _ (m.shifts_drain position) fun drained => ?_
    split
    · rfl
    · split <;> rfl

/-- Taking a token in records that token, and no other. -/
theorem shifts_shift (m : Machine) (token : Token) (position : Int) :
    (m.shift token position).shifts = [⟨token, m.marks.reverse, m.operands.length⟩] := by
  unfold shift
  refine (Logged.view_after_of_some Record.shift? rfl _).trans (congrArg _ ?_)
  cases token with
  | literal c => rfl
  | star => rfl
  | bar => rfl
  | opening => rfl
  | closing =>
    show (m.takeClosing position).shifts = []
    unfold takeClosing
    split
    · rfl
    · split
      · rfl
      · exact shifts_closeGroup _ position
  | foreign text => rfl

/-- The record at `i` is about the character at `i`, and shows the machine that has read what is
in front of it. -/
theorem getElem?_shifts_scan {cs : List Char} {i : Nat} {shown : Shift} :
    ∀ {m : Machine} {position : Nat}, (m.scan position cs).shifts[i]? = some shown →
      ∃ c read, cs[i]? = some c ∧ (m.scan position (cs.take i)).result = .ok read ∧
        shown = ⟨.ofChar c, read.marks.reverse, read.operands.length⟩ := by
  induction cs generalizing i with
  | nil =>
    intro m position h
    contradiction
  | cons c cs ih =>
    intro m position h
    unfold scan at h
    have hfirst := m.shifts_shift (.ofChar c) position
    cases hshift : (m.shift (.ofChar c) position).result with
    | error fault =>
      unfold Logged.shifts at h hfirst
      rw [Logged.view_andThen_of_error _ hshift, hfirst] at h
      cases i with
      | zero => exact ⟨c, m, rfl, rfl, (Option.some.inj h).symm⟩
      | succ i => contradiction
    | ok next =>
      unfold Logged.shifts at h hfirst
      rw [Logged.view_andThen_of_ok _ hshift, hfirst] at h
      cases i with
      | zero => exact ⟨c, m, rfl, rfl, (Option.some.inj h).symm⟩
      | succ i =>
        obtain ⟨e, read, he, hread, hshown⟩ := ih h
        refine ⟨e, read, he, ?_, hshown⟩
        rw [List.take_succ_cons, scan, Logged.result_andThen, hshift]
        exact hread

/-- As long as nothing is refused, there is a record for each character. -/
theorem tokens_scan_of_ok {cs : List Char} :
    ∀ {m m' : Machine} {position : Nat}, (m.scan position cs).result = .ok m' →
      (m.scan position cs).shifts.map Shift.token = cs.map Token.ofChar := by
  induction cs with
  | nil =>
    intro m m' position _
    rfl
  | cons c cs ih =>
    intro m m' position h
    rw [scan, Logged.result_andThen] at h
    cases hshift : (m.shift (.ofChar c) position).result with
    | error fault =>
      rw [hshift] at h
      contradiction
    | ok next =>
      rw [hshift] at h
      have hfirst := m.shifts_shift (.ofChar c) position
      have hrest := ih h
      unfold Logged.shifts at hfirst hrest ⊢
      rw [scan, Logged.view_andThen_of_ok _ hshift, hfirst, List.map_append, hrest]
      rfl

/-- The journal of a text begins with that of its front. -/
theorem view_scan_append {γ : Type} (f : Record → Option γ) {front back : List Char} :
    ∀ {m m' : Machine} {position : Nat}, (m.scan position front).result = .ok m' →
      (m.scan position (front ++ back)).view f
        = (m.scan position front).view f
          ++ (m'.scan (position + front.length) back).view f := by
  induction front with
  | nil =>
    intro m m' position h
    cases h
    rfl
  | cons c front ih =>
    intro m m' position h
    rw [scan, Logged.result_andThen] at h
    cases hshift : (m.shift (.ofChar c) position).result with
    | error fault =>
      rw [hshift] at h
      contradiction
    | ok next =>
      rw [hshift] at h
      have hposition : position + (c :: front).length = position + 1 + front.length := by
        rw [List.length_cons]
        omega
      rw [List.cons_append, scan, scan, Logged.view_andThen_of_ok f hshift,
        Logged.view_andThen_of_ok f hshift, ih h, hposition, List.append_assoc]

/-- The character that is refused has the last record. -/
theorem tokens_scan_of_error {before after : List Char} {c : Char} {fault : Fault}
    {m m' : Machine} {position : Nat} (hread : (m.scan position before).result = .ok m')
    (hrefused : (m'.shift (.ofChar c) (position + before.length : Nat)).result = .error fault) :
    (m.scan position (before ++ c :: after)).shifts.map Shift.token
      = (before ++ [c]).map Token.ofChar := by
  have hfront := tokens_scan_of_ok hread
  have hlast := m'.shifts_shift (.ofChar c) (position + before.length : Nat)
  unfold Logged.shifts at hfront hlast ⊢
  rw [view_scan_append _ hread, List.map_append, hfront, scan,
    Logged.view_andThen_of_error _ hrefused, hlast, List.map_append]
  rfl

end Machine

/-- The text of a character's token is the character. -/
theorem Token.text_ofChar (c : Char) : (Token.ofChar c).text = String.singleton c := by
  unfold ofChar
  split_ifs with _ hstar hbar hopening hclosing
  · rfl
  · rw [hstar]
    rfl
  · rw [hbar]
    rfl
  · rw [hopening]
    rfl
  · rw [hclosing]
    rfl
  · rfl

/-! ## Stacks -/

/-- In front of `i` an operand has just ended. -/
def OperandEnded (w : List Char) (i : Nat) : Prop :=
  0 < i ∧ ∃ c ∈ w[i - 1]?, Symbol.isLiteral c = true ∨ c = '*' ∨ c = ')'

instance (w : List Char) (i : Nat) : Decidable (OperandEnded w i) :=
  inferInstanceAs (Decidable (_ ∧ _))

/-- A symbol ends an operand, or it needs one behind it. -/
theorem endsOperand_iff {c : Char} (hknown : Symbol.isKnown c = true) :
    (Symbol.isLiteral c = true ∨ c = '*' ∨ c = ')') ↔ ¬ (c = '(' ∨ c = '|') := by
  rcases Symbol.cases_of_isKnown hknown with hlit | rfl | rfl | rfl | rfl
  · refine ⟨fun _ hoperator => ?_, fun _ => .inl hlit⟩
    rcases hoperator with rfl | rfl <;> exact absurd hlit (by decide)
  all_goals decide

/-- Among symbols, an operand has ended where none is due. -/
theorem operandEnded_iff {w : List Char} (hknown : ∀ c ∈ w, Symbol.isKnown c = true) {i : Nat}
    (hi : i ≤ w.length) : OperandEnded w i ↔ ¬ OperandDue w i := by
  unfold OperandEnded OperandDue
  cases i with
  | zero => exact ⟨fun h => absurd h.1 (Nat.lt_irrefl 0), fun h => absurd (.inl rfl) h⟩
  | succ i =>
    have hends := endsOperand_iff (hknown w[i] (List.getElem_mem hi))
    have hc : w[i + 1 - 1]? = some w[i] := List.getElem?_eq_getElem hi
    rw [hc]
    simp only [Option.mem_some_iff, exists_eq_left', hends, Option.some_inj, Nat.succ_pos,
      true_and, Nat.succ_ne_zero, false_or]

/-- The marks that wait are those of concatenations and alternations. -/
theorem countP_isWaiting (marks : List Mark) :
    marks.countP Mark.isWaiting = marks.count .concatenation + marks.count .alternation := by
  induction marks with
  | nil => rfl
  | cons mark marks ih =>
    rw [List.countP_cons, List.count_cons, List.count_cons, ih]
    cases mark <;> simp [Mark.isWaiting] <;> omega

/-- What is on the stacks when the first `i` characters of a text have been read. -/
theorem stacks_of_scan {w : String} (hknown : ∀ c ∈ w.toList, Symbol.isKnown c = true) {i : Nat}
    (hi : i ≤ w.toList.length) {m : Machine}
    (h : ((Machine.start w).scan 0 (w.toList.take i)).result = .ok m) :
    m.marks.count .group + (w.toList.take i).count ')' = (w.toList.take i).count '(' ∧
      m.operands.length = m.marks.count .concatenation + m.marks.count .alternation
        + if OperandEnded w.toList i then 1 else 0 := by
  have hbalanced := Machine.Balanced.scan _ 0 (Machine.balanced_start w) m h
  rw [← machine_start] at h
  obtain ⟨d, hread, rfl⟩ := Draft.exists_read_of_scan h
  have hgroups := hbalanced.openGroups_eq
  have houter := Draft.length_outer_read hread
  have hoperands := hbalanced.length_operands
  have hdue := operandDue_iff hread (w.toList.drop i)
  rw [List.take_append_drop, List.length_take_of_le hi] at hdue
  constructor
  · have hopen : (d.machine w).openGroups = d.outer.length := rfl
    have hnone : Draft.start.outer.length = 0 := rfl
    omega
  · rw [hoperands, Machine.required, countP_isWaiting, Draft.afterOperand_machine]
    congr 1
    refine if_congr ?_ rfl rfl
    rw [operandEnded_iff hknown hi, hdue, Option.isSome_iff_ne_none]

/-! ## The journal of a text -/

section Texts

variable {w : String}

/-- All tokens are recorded by the scan. -/
theorem shifts_buildLogged (hne : w ≠ "") (hknown : ∀ c ∈ w.toList, Symbol.isKnown c = true) :
    (buildLogged w).shifts = ((Machine.start w).scan 0 w.toList).shifts := by
  have hfinish := fun read : Machine => read.shifts_finish w.length
  rw [buildLogged_of_known hne hknown]
  unfold Logged.shifts at hfinish ⊢
  cases hscan : ((Machine.start w).scan 0 w.toList).result with
  | error fault => rw [Logged.view_andThen_of_error _ hscan]
  | ok read => rw [Logged.view_andThen_of_ok _ hscan, hfinish, List.append_nil]

theorem tokens_of_read (hne : w ≠ "") {d : Draft} (hread : Draft.start.read w.toList = .ok d) :
    (buildLogged w).shifts.map Shift.token = w.toList.map Token.ofChar := by
  rw [shifts_buildLogged hne (Draft.isKnown_of_read hread)]
  have hscan := Draft.result_scan_of_read w hread 0
  rw [machine_start] at hscan
  exact Machine.tokens_scan_of_ok hscan

/-- **The tokens of a journal.** A text that is built has a record for each character. One that
fails has a record for each up to and with the one at which it fails, which may be its end. -/
theorem tokens_buildLogged (hne : w ≠ "") (hknown : ∀ c ∈ w.toList, Symbol.isKnown c = true) :
    (∀ a, build w = .ok a →
      (buildLogged w).shifts.map Shift.token = w.toList.map Token.ofChar) ∧
    ∀ fault, build w = .error fault →
      ∃ (cause : Cause) (i : Nat), fault = .regex cause w i ∧ i ≤ w.length ∧
        (buildLogged w).shifts.map Shift.token = (w.toList.take (i + 1)).map Token.ofChar := by
  rcases diagnosis_cases hknown with
    ⟨d, hread, -⟩ | ⟨before, c, after, d, cause, hw, hread, htake, hrefused, -, hbuild⟩
  · have htokens := tokens_of_read hne hread
    refine ⟨fun _ _ => htokens, fun fault hfault => ?_⟩
    obtain ⟨hdue, hnot⟩ := build_at_end hne hread
    by_cases hends : EndsDue w.toList
    · rw [hdue hends] at hfault
      cases hfault
      refine ⟨_, w.length, rfl, Nat.le_refl _, ?_⟩
      rw [htokens, List.take_of_length_le (by rw [String.length_toList]; omega)]
    · obtain ⟨a, ha⟩ := hnot hends
      rw [ha] at hfault
      contradiction
  · refine ⟨fun a ha => ?_, fun fault hfault => ?_⟩
    · rw [hbuild] at ha
      contradiction
    · rw [hbuild] at hfault
      cases hfault
      have hlt := lt_length_of_refused hrefused
      rw [String.length_toList] at hlt
      refine ⟨_, before.length, rfl, Nat.le_of_lt hlt, ?_⟩
      have hscan := Draft.result_scan_of_read w hread 0
      have hstop := Draft.result_shift w d (0 + before.length : Nat) c
      rw [htake] at hstop
      rw [machine_start] at hscan
      rw [shifts_buildLogged hne hknown, hw, List.take_length_add_append,
        Machine.tokens_scan_of_error hscan hstop]
      rfl

/-- **The stacks of a journal.** The record at `i` shows a group mark for each group that is open
in front of `i`, an operand for each other mark, and one more exactly if an operand has just
ended. -/
theorem stacks_buildLogged (hne : w ≠ "") (hknown : ∀ c ∈ w.toList, Symbol.isKnown c = true)
    {i : Nat} {shown : Shift} (h : (buildLogged w).shifts[i]? = some shown) :
    shown.marks.count .group + (w.toList.take i).count ')' = (w.toList.take i).count '(' ∧
      shown.operands = shown.marks.count .concatenation + shown.marks.count .alternation
        + if OperandEnded w.toList i then 1 else 0 := by
  rw [shifts_buildLogged hne hknown] at h
  obtain ⟨c, read, hc, hread, rfl⟩ := Machine.getElem?_shifts_scan h
  have hi := (List.getElem?_eq_some_iff.mp hc).1
  obtain ⟨hgroups, hoperands⟩ := stacks_of_scan hknown (Nat.le_of_lt hi) hread
  simp only [List.count_reverse]
  exact ⟨hgroups, hoperands⟩

end Texts

end RegexAutomata
