import RegexAutomata.Proofs.Regex.Reading

/-!
# Where a regex is refused, and why

The machine decides with what it carries along: whether an operand has just ended, and how many
groups are open. Both can be read off the text: an operand is due at the beginning, behind `(`
and behind `|`, and the open groups are counted by the parentheses. So a fault can be told from
the text alone.

`Refused w i` says that the character at `i` cannot stand there, and `causeAt` why.
`take_eq_error_iff` is the step: a draft refuses a character exactly where the text does. As a
draft of a text is made from drafts of all its beginnings, the first refused index is where the
reading ends, and `build_diagnosis` is the whole account. It also says that no fault is noticed
late: up to the character that is refused, the text can be continued to a regex, and from there
on it cannot.
-/

namespace RegexAutomata

/-- At `i` there is a closing parenthesis that no group in front of it is left open for. -/
def Unopened (w : List Char) (i : Nat) : Prop :=
  w[i]? = some ')' ∧ (w.take i).count ')' = (w.take i).count '('

/-- At `i` an operand is due: nothing stands in front, or what needs an operand. -/
def OperandDue (w : List Char) (i : Nat) : Prop :=
  i = 0 ∨ w[i - 1]? = some '(' ∨ w[i - 1]? = some '|'

/-- At `i` there is a character that needs an operand in front, and there an operand is due. -/
def Unfed (w : List Char) (i : Nat) : Prop :=
  (w[i]? = some '*' ∨ w[i]? = some '|' ∨ w[i]? = some ')') ∧ OperandDue w i

/-- The character at `i` cannot stand there. -/
def Refused (w : List Char) (i : Nat) : Prop :=
  Unopened w i ∨ Unfed w i

instance (w : List Char) (i : Nat) : Decidable (Unopened w i) :=
  inferInstanceAs (Decidable (_ ∧ _))

instance (w : List Char) (i : Nat) : Decidable (OperandDue w i) :=
  inferInstanceAs (Decidable (_ ∨ _ ∨ _))

instance (w : List Char) (i : Nat) : Decidable (Unfed w i) :=
  inferInstanceAs (Decidable (_ ∧ _))

instance (w : List Char) (i : Nat) : Decidable (Refused w i) :=
  inferInstanceAs (Decidable (_ ∨ _))

/-- Why the character at `i` cannot stand there. That no group is open goes before everything
else that can be wrong with a closing parenthesis. -/
def causeAt (w : List Char) (i : Nat) : Cause :=
  if Unopened w i then .nothingOpen
  else if w[i]? = some '*' then .nothingToRepeat
  else if w[i]? = some '|' then .missingLeft
  else .emptyGroup

/-- A closing parenthesis without a group is a fault of balance, all else one of operands. -/
theorem kind_causeAt (w : List Char) (i : Nat) :
    (causeAt w i).kind
      = if Unopened w i then .unbalancedParenthesis else .operandMismatch := by
  unfold causeAt
  split
  · rfl
  · split
    · rfl
    · split <;> rfl

theorem lt_length_of_refused {w : List Char} {i : Nat} (h : Refused w i) : i < w.length := by
  have hsome : ∃ c, w[i]? = some c := by
    rcases h with ⟨h, -⟩ | ⟨h | h | h, -⟩
    · exact ⟨_, h⟩
    · exact ⟨_, h⟩
    · exact ⟨_, h⟩
    · exact ⟨_, h⟩
  obtain ⟨c, hc⟩ := hsome
  exact (List.getElem?_eq_some_iff.mp hc).1

section Step

variable {before : List Char} {d : Draft}

theorem getElem?_behind (before : List Char) (c : Char) (after : List Char) :
    (before ++ c :: after)[before.length]? = some c := by
  rw [List.getElem?_append_right (Nat.le_refl _), Nat.sub_self]
  rfl

/-- Whether an operand is due shows in the draft: no alternative is under way. -/
theorem operandDue_iff (hread : Draft.start.read before = .ok d) (rest : List Char) :
    OperandDue (before ++ rest) before.length ↔ d.inner.current = none := by
  rcases List.eq_nil_or_concat before with rfl | ⟨front, c, hbefore⟩
  · cases hread
    exact ⟨fun _ => rfl, fun _ => .inl rfl⟩
  · rw [List.concat_eq_append] at hbefore
    subst hbefore
    have hlast : (front ++ [c] ++ rest)[(front ++ [c]).length - 1]? = some c := by
      rw [List.append_assoc, List.length_append, List.length_singleton, Nat.add_sub_cancel]
      exact getElem?_behind front c rest
    have hlength : (front ++ [c]).length ≠ 0 := by simp
    rw [OperandDue, hlast, or_iff_right hlength, Option.some_inj, Option.some_inj]
    obtain ⟨d₀, -, hc⟩ := Draft.read_append_eq_ok.mp hread
    obtain ⟨d₁, htake, hnil⟩ := Draft.read_cons_eq_ok.mp hc
    cases hnil
    -- of the five ways to be read, two leave an operand due
    cases Draft.taken_of_take htake with
    | literal hlit =>
      refine ⟨?_, fun h => absurd h (Option.some_ne_none _)⟩
      intro h
      rcases h with rfl | rfl <;> exact absurd hlit (by decide)
    | star _ => exact ⟨fun h => absurd h (by decide), fun h => absurd h (Option.some_ne_none _)⟩
    | bar _ => exact ⟨fun _ => rfl, fun _ => .inr rfl⟩
    | opening => exact ⟨fun _ => rfl, fun _ => .inl rfl⟩
    | closing _ _ =>
      exact ⟨fun h => absurd h (by decide), fun h => absurd h (Option.some_ne_none _)⟩

/-- Whether a closing parenthesis closes anything shows in the draft: no group is open. -/
theorem unopened_iff (hread : Draft.start.read before = .ok d) (c : Char) (after : List Char) :
    Unopened (before ++ c :: after) before.length ↔ c = ')' ∧ d.outer = [] := by
  have hcount := Draft.length_outer_read hread
  have hstart : Draft.start.outer.length = 0 := rfl
  rw [Unopened, getElem?_behind, List.take_left, Option.some_inj, ← List.length_eq_zero_iff]
  refine and_congr_right fun _ => ?_
  omega

theorem refused_iff (hread : Draft.start.read before = .ok d) (c : Char) (after : List Char) :
    Refused (before ++ c :: after) before.length ↔
      (c = ')' ∧ d.outer = []) ∨
        ((c = '*' ∨ c = '|' ∨ c = ')') ∧ d.inner.current = none) := by
  rw [Refused, Unfed, unopened_iff hread, operandDue_iff hread, getElem?_behind]
  simp only [Option.some_inj]

theorem causeAt_eq (hread : Draft.start.read before = .ok d) (c : Char) (after : List Char) :
    causeAt (before ++ c :: after) before.length =
      if c = ')' ∧ d.outer = [] then .nothingOpen
      else if c = '*' then .nothingToRepeat
      else if c = '|' then .missingLeft
      else .emptyGroup := by
  simp only [causeAt, unopened_iff hread, getElem?_behind, Option.some_inj]

/-- **The step.** Behind what has been read, a draft refuses exactly the symbols that the text
refuses, and for the cause that the text gives. -/
theorem take_eq_error_iff (hread : Draft.start.read before = .ok d) {c : Char}
    (hknown : Symbol.isKnown c = true) (after : List Char) {cause : Cause} :
    d.take c = .error cause ↔
      Refused (before ++ c :: after) before.length ∧
        cause = causeAt (before ++ c :: after) before.length := by
  rw [refused_iff hread, causeAt_eq hread]
  obtain ⟨⟨finished, current⟩, outer⟩ := d
  -- one symbol after the other, and for each what the draft looks at
  rcases Symbol.cases_of_isKnown hknown with hlit | rfl | rfl | rfl | rfl
  · rw [Draft.take_literal _ hlit]
    have hstar : c ≠ '*' := Symbol.ne_of_isLiteral hlit rfl
    have hbar : c ≠ '|' := Symbol.ne_of_isLiteral hlit rfl
    have hclosing : c ≠ ')' := Symbol.ne_of_isLiteral hlit rfl
    simp [hstar, hbar, hclosing]
  · rw [Draft.take_opening]
    simp
  · rw [Draft.take_closing]
    cases outer <;> cases current <;> simp [Layer.regex?, eq_comm]
  · rw [Draft.take_star]
    cases current <;> simp [eq_comm]
  · rw [Draft.take_bar]
    cases current <;> simp [eq_comm]

/-- What has been read is refused nowhere. -/
theorem not_refused_of_read (hread : Draft.start.read before = .ok d) (rest : List Char) {i : Nat}
    (hi : i < before.length) : ¬ Refused (before ++ rest) i := by
  -- cut at `i`: the draft of the front went on there, so it did not refuse
  obtain ⟨front, c, after, rfl, rfl⟩ :
      ∃ front c after, before = front ++ c :: after ∧ front.length = i :=
    ⟨before.take i, before[i], before.drop (i + 1),
      by rw [List.getElem_cons_drop, List.take_append_drop],
      List.length_take_of_le (Nat.le_of_lt hi)⟩
  obtain ⟨d₀, hfront, hc⟩ := Draft.read_append_eq_ok.mp hread
  obtain ⟨d₁, htake, -⟩ := Draft.read_cons_eq_ok.mp hc
  rw [List.append_assoc, List.cons_append]
  intro hrefused
  have herror := (take_eq_error_iff hfront (Draft.isKnown_of_take htake) (after ++ rest)).mpr
    ⟨hrefused, rfl⟩
  rw [htake] at herror
  contradiction

/-- What has been read can be continued to a regex: by a letter, if an operand is due or not. -/
theorem exists_build_of_read (hread : Draft.start.read before = .ok d) :
    ∃ rest a, build (String.ofList before ++ rest : String) = .ok a := by
  have hread' : Draft.start.read (String.ofList before ++ "a").toList
      = .ok ⟨d.inner.push (.plain (.literal 'a' rfl)), d.outer⟩ := by
    rw [String.toList_append, String.toList_ofList]
    exact Draft.read_append_eq_ok.mpr ⟨d, hread, rfl⟩
  exact ⟨"a", _, build_eq_ok_iff.mpr ⟨_, _, hread', rfl, rfl⟩⟩

/-- Behind a refused character nothing makes a regex of the text. -/
theorem build_ne_ok_of_take (hread : Draft.start.read before = .ok d) {c : Char} {cause : Cause}
    (htake : d.take c = .error cause) (rest : String) (a : Automaton) :
    build (String.ofList (before ++ [c]) ++ rest : String) ≠ .ok a := by
  intro h
  obtain ⟨d', p, hread', -, -⟩ := build_eq_ok_iff.mp h
  rw [String.toList_append, String.toList_ofList, List.append_assoc] at hread'
  obtain ⟨d₀, hbefore, hc⟩ := Draft.read_append_eq_ok.mp hread'
  obtain ⟨d₁, htake', -⟩ := Draft.read_cons_eq_ok.mp hc
  rw [hread] at hbefore
  cases hbefore
  rw [htake] at htake'
  contradiction

end Step

/-- Whether the text ends where an operand is due. -/
def EndsDue (w : List Char) : Prop :=
  w.getLast? = some '(' ∨ w.getLast? = some '|'

instance (w : List Char) : Decidable (EndsDue w) :=
  inferInstanceAs (Decidable (_ ∨ _))

theorem endsDue_iff {w : List Char} (hne : w ≠ []) {d : Draft} (hread : Draft.start.read w = .ok d) :
    EndsDue w ↔ d.inner.current = none := by
  have hdue := operandDue_iff hread []
  have hlength : w.length ≠ 0 := fun h => hne (List.length_eq_zero_iff.mp h)
  rw [List.append_nil, OperandDue, ← List.getLast?_eq_getElem?, or_iff_right hlength] at hdue
  exact hdue

/-- A text with a draft is built, unless it ends where an operand is due. -/
theorem build_at_end {w : String} (hne : w ≠ "") {d : Draft}
    (hread : Draft.start.read w.toList = .ok d) :
    (EndsDue w.toList → build w = .error (.regex .missingRight w w.length)) ∧
      (¬ EndsDue w.toList → ∃ a, build w = .ok a) := by
  have hlist : w.toList ≠ [] := fun h => hne (String.toList_eq_nil_iff.mp h)
  have hends := endsDue_iff hlist hread
  rw [build_of_read hne hread, Draft.whole?, Layer.regex?]
  constructor
  · intro hdue
    rw [hends.mp hdue]
    rfl
  · intro hnot
    obtain ⟨term, hterm⟩ := Option.ne_none_iff_exists'.mp (mt hends.mpr hnot)
    rw [hterm]
    exact ⟨_, rfl⟩

/-- No fault is noticed late: in front of the refused character the text can be continued to a
regex, and with it no more. -/
theorem earliest_of_take {w : String} {before after : List Char} {c : Char} {d : Draft}
    {cause : Cause} (hw : w.toList = before ++ c :: after)
    (hread : Draft.start.read before = .ok d) (htake : d.take c = .error cause) :
    (∃ rest a, build (String.ofList (w.toList.take before.length) ++ rest : String) = .ok a) ∧
      ∀ rest a, build (String.ofList (w.toList.take (before.length + 1)) ++ rest : String) ≠ .ok a := by
  have htaken : w.toList.take (before.length + 1) = before ++ [c] := by
    rw [hw, List.take_length_add_append]
    rfl
  rw [htaken, hw, List.take_left]
  exact ⟨exists_build_of_read hread, build_ne_ok_of_take hread htake⟩

/-- The two ways a text of symbols can go. Either nothing in it is refused and it has a draft, or
it is read up to a first index that is refused, and fails there. -/
theorem diagnosis_cases {w : String} (hknown : ∀ c ∈ w.toList, Symbol.isKnown c = true) :
    (∃ d, Draft.start.read w.toList = .ok d ∧ ∀ i, ¬ Refused w.toList i) ∨
      ∃ before c after d cause, w.toList = before ++ c :: after ∧
        Draft.start.read before = .ok d ∧ d.take c = .error cause ∧
        Refused w.toList before.length ∧ (∀ j < before.length, ¬ Refused w.toList j) ∧
        build w = .error (.regex (causeAt w.toList before.length) w before.length) := by
  rcases Draft.read_cases w.toList Draft.start with
    ⟨d, hread⟩ | ⟨before, c, after, d, cause, hw, hread, htake⟩
  · refine .inl ⟨d, hread, fun i hrefused => ?_⟩
    have hnot := not_refused_of_read hread [] (lt_length_of_refused hrefused)
    rw [List.append_nil] at hnot
    exact hnot hrefused
  · have hc : Symbol.isKnown c = true := by
      refine hknown c ?_
      rw [hw]
      exact List.mem_append_right _ List.mem_cons_self
    obtain ⟨hrefused, hcause⟩ := (take_eq_error_iff hread hc after).mp htake
    rw [← hw] at hrefused hcause
    refine .inr ⟨before, c, after, d, cause, hw, hread, htake, hrefused, fun j hj => ?_, ?_⟩
    · rw [hw]
      exact not_refused_of_read hread _ hj
    · rw [build_of_fault hknown hw hread htake, hcause]

/-- Literals side by side are a regex. -/
theorem exists_build_of_literals {w : String} (hne : w ≠ "")
    (hliteral : ∀ c ∈ w.toList, Symbol.isLiteral c = true) : ∃ a, build w = .ok a := by
  have hnot : ∀ operator, Symbol.isLiteral operator = false → operator ∉ w.toList := by
    intro operator hoperator hmem
    rw [hliteral operator hmem] at hoperator
    contradiction
  have hknown : ∀ c ∈ w.toList, Symbol.isKnown c = true := by
    intro c hc
    rw [Symbol.isKnown, hliteral c hc]
    rfl
  rcases diagnosis_cases hknown with ⟨d, hread, -⟩ | ⟨before, _, _, _, _, -, -, -, hrefused, -, -⟩
  · refine (build_at_end hne hread).2 fun hends => ?_
    rcases hends with h | h
    · exact hnot '(' rfl (List.mem_of_getLast? h)
    · exact hnot '|' rfl (List.mem_of_getLast? h)
  · rcases hrefused with ⟨h, -⟩ | ⟨h | h | h, -⟩
    · exact absurd (List.mem_of_getElem? h) (hnot ')' rfl)
    · exact absurd (List.mem_of_getElem? h) (hnot '*' rfl)
    · exact absurd (List.mem_of_getElem? h) (hnot '|' rfl)
    · exact absurd (List.mem_of_getElem? h) (hnot ')' rfl)

/-- **Diagnosis.** What becomes of a text of symbols. It fails at the first character that is
refused, with the cause that the text gives; if none is, it fails at its end when an operand is
due there, and else it is built. Whenever it fails in front of its end, the part in front of the
fault can be continued to a regex, but no regex begins with one character more. -/
theorem build_diagnosis (w : String) (hne : w ≠ "")
    (hknown : ∀ c ∈ w.toList, Symbol.isKnown c = true) :
    (∀ i, Refused w.toList i → (∀ j < i, ¬ Refused w.toList j) →
      build w = .error (.regex (causeAt w.toList i) w i) ∧
        (causeAt w.toList i).kind
          = if Unopened w.toList i then .unbalancedParenthesis else .operandMismatch) ∧
    ((∀ i, ¬ Refused w.toList i) →
      (EndsDue w.toList → build w = .error (.regex .missingRight w w.length) ∧
        Cause.missingRight.kind = .operandMismatch) ∧
      (¬ EndsDue w.toList → ∃ a, build w = .ok a)) ∧
    ∀ fault, build w = .error fault →
      ∃ (cause : Cause) (i : Nat), fault = .regex cause w i ∧ i ≤ w.length ∧
        (i < w.length →
          (∃ rest a, build (String.ofList (w.toList.take i) ++ rest : String) = .ok a) ∧
          ∀ rest a, build (String.ofList (w.toList.take (i + 1)) ++ rest : String) ≠ .ok a) := by
  rcases diagnosis_cases hknown with
    ⟨d, hread, hnone⟩ | ⟨before, c, after, d, cause, hw, hread, htake, hrefused, hleast, hbuild⟩
  · -- nothing is refused: the end decides
    obtain ⟨hdue, hnot⟩ := build_at_end hne hread
    refine ⟨fun i hi => absurd hi (hnone i), fun _ => ⟨fun h => ⟨hdue h, rfl⟩, hnot⟩, ?_⟩
    intro fault hfault
    by_cases hends : EndsDue w.toList
    · rw [hdue hends] at hfault
      cases hfault
      exact ⟨_, w.length, rfl, Nat.le_refl _, fun h => absurd h (Nat.lt_irrefl _)⟩
    · obtain ⟨a, ha⟩ := hnot hends
      rw [ha] at hfault
      contradiction
  · -- the first refused index is where the reading stopped
    refine ⟨fun i hi hfirst => ⟨?_, kind_causeAt _ _⟩, fun h => absurd hrefused (h _), ?_⟩
    · have hi' : i = before.length := by
        rcases Nat.lt_trichotomy i before.length with hlt | heq | hgt
        · exact absurd hi (hleast i hlt)
        · exact heq
        · exact absurd hrefused (hfirst _ hgt)
      rw [hi']
      exact hbuild
    · intro fault hfault
      rw [hbuild] at hfault
      cases hfault
      have hlt := lt_length_of_refused hrefused
      rw [String.length_toList] at hlt
      exact ⟨_, before.length, rfl, Nat.le_of_lt hlt, fun _ => earliest_of_take hw hread htake⟩

/-- Two faults at one place: behind a bar, a parenthesis that closes nothing. -/
theorem build_diagnosis_bar_closing :
    build "a|)*" = .error (.regex .nothingOpen "a|)*" 2) ∧
      Cause.nothingOpen.kind = .unbalancedParenthesis :=
  (build_diagnosis "a|)*" (by decide) ((firstStray_eq_none_iff _).mp rfl)).1 2
    (by decide) (by decide)

end RegexAutomata
