import RegexAutomata.Proofs.Regex.Built
import RegexAutomata.Proofs.Regex.Diagnosis

/-!
# Which faults are forgiven

Compiling forgives some faults and passes others on, and how a text is spelled decides which. A
text that is missing, is empty or holds a character that is no symbol has a `SpellingFault`: it is
noticed before anything is read, so that no other fault can come first
(`buildLogged_of_spellingFault`), and it is forgiven (`compileLogged_of_spellingFault`). A text of
symbols is built, or its fault lies in how it is put together (`build_of_wellSpelled`), and then
compiling is building (`compileLogged_of_wellSpelled`).

The two ways can be told apart afterwards. Only a forgiven fault is recorded as a warning, since
reading records nothing worth one (`quiet_buildLogged`), and only a forgiven fault leaves an
automaton without states, since what is built has two at least.

Main result: `forgiven_iff_misspelled`.
-/

namespace RegexAutomata

/-! ## Spelling -/

/-- At `i` stands the first character that is no symbol, and it is `c`. -/
structure IsFirstStray (w : List Char) (i : Nat) (c : Char) : Prop where
  getElem?_eq : w[i]? = some c
  stray : Symbol.isKnown c = false
  known_before : ∀ j < i, ∀ d, w[j]? = some d → Symbol.isKnown d = true

theorem isFirstStray_cons_zero {c : Char} (cs : List Char) (h : Symbol.isKnown c = false) :
    IsFirstStray (c :: cs) 0 c :=
  ⟨rfl, h, fun j hj => absurd hj (Nat.not_lt_zero j)⟩

theorem IsFirstStray.cons {c d : Char} {cs : List Char} {i : Nat} (hd : Symbol.isKnown d = true)
    (h : IsFirstStray cs i c) : IsFirstStray (d :: cs) (i + 1) c := by
  refine ⟨by rw [List.getElem?_cons_succ, h.getElem?_eq], h.stray, ?_⟩
  intro j hj e he
  cases j with
  | zero =>
    rw [List.getElem?_cons_zero, Option.some_inj] at he
    rw [← he]
    exact hd
  | succ j =>
    rw [List.getElem?_cons_succ] at he
    exact h.known_before j (Nat.lt_of_succ_lt_succ hj) e he

/-- What is found as the first stray character is the first one. -/
theorem isFirstStray_of_firstStray {cs : List Char} :
    ∀ {i : Nat} {c : Char}, firstStray cs = some (i, c) → IsFirstStray cs i c := by
  induction cs with
  | nil =>
    intro i c h
    contradiction
  | cons d cs ih =>
    intro i c h
    unfold firstStray at h
    by_cases hd : Symbol.isKnown d = true
    · rw [if_pos hd] at h
      obtain ⟨⟨j, e⟩, hfound, heq⟩ := Option.map_eq_some_iff.mp h
      obtain ⟨rfl, rfl⟩ := Prod.mk.inj heq
      exact (ih hfound).cons hd
    · rw [if_neg hd] at h
      obtain ⟨rfl, rfl⟩ := Prod.mk.inj (Option.some.inj h)
      exact isFirstStray_cons_zero cs (Bool.eq_false_iff.mpr hd)

/-- There is only one first stray character, so it is the one that is found. -/
theorem IsFirstStray.firstStray_eq {cs : List Char} {i : Nat} {c : Char}
    (h : IsFirstStray cs i c) : firstStray cs = some (i, c) := by
  cases hfound : firstStray cs with
  | none =>
    have hc := (firstStray_eq_none_iff cs).mp hfound c (List.mem_of_getElem? h.getElem?_eq)
    rw [h.stray] at hc
    contradiction
  | some found =>
    obtain ⟨j, d⟩ := found
    have h' := isFirstStray_of_firstStray hfound
    -- of two first ones neither can come before the other
    have hij : i = j := by
      rcases Nat.lt_trichotomy i j with hlt | heq | hgt
      · have hc := h'.known_before i hlt c h.getElem?_eq
        rw [h.stray] at hc
        contradiction
      · exact heq
      · have hd := h.known_before j hgt d h'.getElem?_eq
        rw [h'.stray] at hd
        contradiction
    subst hij
    have hcd := h.getElem?_eq
    rw [h'.getElem?_eq] at hcd
    rw [Option.some.inj hcd]

/-- What is wrong with a text that is not spelled in symbols, and where: there is none, it has no
beginning, or there is a first character that is no symbol. How the symbols around it are put
together is not asked. -/
inductive SpellingFault : Option String → Fault → Prop where
  | missing : SpellingFault none (.regex .emptyRegex "" 0)
  | empty : SpellingFault "" (.regex .emptyRegex "" 0)
  | stray {w : String} {i : Nat} {c : Char} (h : IsFirstStray w.toList i c) :
      SpellingFault w (.regex (.strayText (String.singleton c)) w i)

variable {regex : Option String} {w : String} {fault : Fault}

theorem wellSpelled_iff :
    wellSpelled w = true ↔ w ≠ "" ∧ ∀ c ∈ w.toList, Symbol.isKnown c = true := by
  rw [wellSpelled, strayIndex?, Bool.and_eq_true, Option.isNone_map, Option.isNone_iff_eq_none,
    firstStray_eq_none_iff, Bool.not_eq_true', ← Bool.not_eq_true, String.isEmpty_iff]

theorem exists_text_of_wellSpelled (h : wellSpelled regex = true) : ∃ w : String, regex = w := by
  cases regex with
  | none => contradiction
  | some w => exact ⟨w, rfl⟩

theorem exists_spellingFault (h : wellSpelled regex = false) :
    ∃ fault, SpellingFault regex fault := by
  cases regex with
  | none => exact ⟨_, .missing⟩
  | some w =>
    by_cases hempty : w = ""
    · subst hempty
      exact ⟨_, .empty⟩
    · cases hfound : firstStray w.toList with
      | none =>
        have hwell := wellSpelled_iff.mpr ⟨hempty, (firstStray_eq_none_iff _).mp hfound⟩
        rw [h] at hwell
        contradiction
      | some found => exact ⟨_, .stray (isFirstStray_of_firstStray hfound)⟩

theorem SpellingFault.kind_eq (h : SpellingFault regex fault) :
    ∃ cause source position, fault = .regex cause source position ∧
      cause.kind = .invalidCharacter := by
  cases h with
  | missing => exact ⟨_, _, _, rfl, rfl⟩
  | empty => exact ⟨_, _, _, rfl, rfl⟩
  | stray _ => exact ⟨_, _, _, rfl, rfl⟩

/-! ## Building -/

/-- A misspelled text is not read at all. -/
theorem buildLogged_of_spellingFault (h : SpellingFault regex fault) :
    buildLogged regex = .fail fault := by
  cases h with
  | missing => rfl
  | empty => rfl
  | @stray w i c hstray =>
    have hne : ¬ w.isEmpty = true := by
      intro hempty
      have heq := hstray.getElem?_eq
      rw [String.isEmpty_iff.mp hempty] at heq
      contradiction
    rw [buildLogged, if_neg hne, hstray.firstStray_eq]

theorem build_of_spellingFault (h : SpellingFault regex fault) : build regex = .error fault :=
  congrArg Logged.result (buildLogged_of_spellingFault h)

/-- A text of symbols is built, and into an automaton with states, or it is not put together as
a regex. -/
theorem build_of_wellSpelled (h : wellSpelled w = true) :
    (∃ a, build w = .ok a ∧ 2 ≤ a.size) ∨
      ∃ (cause : Cause) (position : Int), build w = .error (.regex cause w position) ∧
        (cause.kind = .unbalancedParenthesis ∨ cause.kind = .operandMismatch) := by
  obtain ⟨hne, hknown⟩ := wellSpelled_iff.mp h
  rcases diagnosis_cases hknown with
    ⟨d, hread, -⟩ | ⟨before, c, after, d, cause, -, -, -, -, -, hbuild⟩
  · obtain ⟨hdue, hnot⟩ := build_at_end hne hread
    by_cases hends : EndsDue w.toList
    · exact .inr ⟨_, _, hdue hends, .inr rfl⟩
    · obtain ⟨a, ha⟩ := hnot hends
      exact .inl ⟨a, ha, (constructed_of_build ha).isFragment.two_le_size⟩
  · refine .inr ⟨_, _, hbuild, ?_⟩
    rw [kind_causeAt]
    split
    · exact .inl rfl
    · exact .inr rfl

/-! ## Warnings -/

namespace Logged

variable {α β : Type}

/-- Nothing that was recorded is a warning. -/
def Quiet (x : Logged α) : Prop :=
  warnings x.records = []

namespace Quiet

theorem value (a : α) : Quiet (Logged.value a) := rfl

theorem fail (fault : Fault) : Quiet (Logged.fail fault : Logged α) := rfl

theorem after {record : Record} {x : Logged α} (hrecord : record.level = .debug) (hx : x.Quiet) :
    Quiet (Logged.after record x) := by
  unfold Quiet warnings Logged.after
  rw [List.filter_cons_of_neg (by rw [hrecord]; decide)]
  exact hx

theorem andThen {x : Logged α} {next : α → Logged β} (hx : x.Quiet) (hnext : ∀ a, (next a).Quiet) :
    Quiet (x.andThen next) := by
  unfold Logged.andThen
  split
  · exact hx
  · next a _ =>
    show warnings (x.records ++ (next a).records) = []
    unfold warnings
    rw [List.filter_append]
    exact List.append_eq_nil_iff.mpr ⟨hx, hnext a⟩

end Quiet

end Logged

namespace Machine

theorem quiet_closeGroup (m : Machine) (position : Int) : (m.closeGroup position).Quiet := by
  rw [closeGroup]
  split
  · exact .fail _
  · split
    · exact .value _
    · apply Logged.Quiet.after rfl
      split
      · exact .fail _
      · next next hreduce => exact quiet_closeGroup next position
termination_by m.marks.length
decreasing_by exact marks_lt_of_reduce ‹_›

theorem quiet_drain (m : Machine) (position : Int) : (m.drain position).Quiet := by
  rw [drain]
  split
  · exact .value _
  · split
    · exact .fail _
    · apply Logged.Quiet.after rfl
      split
      · exact .fail _
      · next next hreduce => exact quiet_drain next position
termination_by m.marks.length
decreasing_by exact marks_lt_of_reduce ‹_›

theorem quiet_shift (m : Machine) (token : Token) (position : Int) :
    (m.shift token position).Quiet := by
  unfold shift
  apply Logged.Quiet.after rfl
  cases token with
  | literal c => exact .value _
  | star => exact rfl
  | bar => exact rfl
  | opening => exact .value _
  | closing =>
    show (m.takeClosing position).Quiet
    unfold takeClosing
    split
    · exact .fail _
    · split
      · exact .fail _
      · exact quiet_closeGroup _ position
  | foreign text => exact .fail _

theorem quiet_scan (cs : List Char) :
    ∀ (m : Machine) (position : Nat), (m.scan position cs).Quiet := by
  induction cs with
  | nil =>
    intro m position
    exact .value m
  | cons c cs ih =>
    intro m position
    exact (quiet_shift m _ position).andThen fun next => ih next (position + 1)

theorem quiet_finish (m : Machine) (position : Int) : (m.finish position).Quiet := by
  unfold finish
  split
  · exact .fail _
  · refine (quiet_drain m position).andThen fun drained => ?_
    split
    · exact .fail _
    · split
      · exact .after rfl (.value _)
      · exact .fail _

end Machine

/-- Building warns of nothing, whatever comes of it. -/
theorem quiet_buildLogged (regex : Option String) : (buildLogged regex).Quiet := by
  unfold buildLogged
  split
  · exact .fail _
  · split
    · exact .fail _
    · split
      · exact .fail _
      · exact (Machine.quiet_scan _ _ 0).andThen fun read => read.quiet_finish _

/-! ## Compiling -/

/-- The fault of a misspelled text is forgiven, with a warning that reports it. -/
theorem compileLogged_of_spellingFault (h : SpellingFault regex fault) :
    ∃ report, fault.report? = some report ∧
      compileLogged regex = ⟨[.rejected report], .ok .empty⟩ := by
  unfold compileLogged
  rw [buildLogged_of_spellingFault h]
  cases h with
  | missing => exact ⟨_, rfl, rfl⟩
  | empty => exact ⟨_, rfl, rfl⟩
  | stray _ => exact ⟨_, rfl, rfl⟩

theorem soft?_eq_none {cause : Cause} {source : String} {position : Int}
    (h : cause.kind = .unbalancedParenthesis ∨ cause.kind = .operandMismatch) :
    (Fault.regex cause source position).soft? = none := by
  apply Option.filter_eq_none_iff.mpr
  intro report hreport
  rw [← Option.some.inj hreport]
  show ¬ decide (cause.kind = .invalidCharacter) = true
  rcases h with h | h
  · rw [h]
    decide
  · rw [h]
    decide

/-- No other fault is forgiven. -/
theorem compileLogged_of_wellSpelled (h : wellSpelled regex = true) :
    compileLogged regex = buildLogged regex := by
  obtain ⟨w, rfl⟩ := exists_text_of_wellSpelled h
  unfold compileLogged
  rcases build_of_wellSpelled h with ⟨a, ha, -⟩ | ⟨cause, position, hbuild, hkind⟩
  · have hresult : (buildLogged w).result = .ok a := ha
    simp only [hresult]
  · have hresult : (buildLogged w).result = .error (.regex cause w position) := hbuild
    simp only [hresult, soft?_eq_none hkind]

theorem warnings_of_wellSpelled (h : wellSpelled regex = true) :
    warnings (compileLogged regex).records = [] := by
  rw [compileLogged_of_wellSpelled h]
  exact quiet_buildLogged regex

theorem compile_of_wellSpelled (h : wellSpelled regex = true) : compile regex = build regex := by
  unfold compile
  rw [compileLogged_of_wellSpelled h]
  rfl

/-- A misspelled text compiles to nothing, with one warning. -/
theorem compile_of_misspelled (h : wellSpelled regex = false) :
    compile regex = .ok .empty ∧ (warnings (compileLogged regex).records).length = 1 := by
  obtain ⟨fault, hfault⟩ := exists_spellingFault h
  obtain ⟨report, -, hcompile⟩ := compileLogged_of_spellingFault hfault
  unfold compile
  rw [hcompile]
  exact ⟨rfl, rfl⟩

/-- Building reports an invalid character for misspelled texts only. -/
theorem misspelled_iff_invalidCharacter (regex : Option String) :
    wellSpelled regex = false ↔
      ∃ cause source position, build regex = .error (.regex cause source position) ∧
        cause.kind = .invalidCharacter := by
  constructor
  · intro h
    obtain ⟨fault, hfault⟩ := exists_spellingFault h
    obtain ⟨cause, source, position, rfl, hkind⟩ := hfault.kind_eq
    exact ⟨cause, source, position, build_of_spellingFault hfault, hkind⟩
  · intro h
    obtain ⟨cause, source, position, hbuild, hkind⟩ := h
    apply Bool.eq_false_iff.mpr
    intro hwell
    obtain ⟨w, rfl⟩ := exists_text_of_wellSpelled hwell
    rcases build_of_wellSpelled hwell with ⟨a, ha, -⟩ | ⟨cause', position', hbuild', hkind'⟩
    · rw [hbuild] at ha
      contradiction
    · rw [hbuild] at hbuild'
      cases hbuild'
      rw [hkind] at hkind'
      exact absurd hkind' (by decide)

/-- Compiling comes to nothing, with a warning, for misspelled texts only. -/
theorem misspelled_iff_warning (regex : Option String) :
    wellSpelled regex = false ↔
      ∃ a, compile regex = .ok a ∧ a.isEmpty = true ∧
        (warnings (compileLogged regex).records).length = 1 := by
  constructor
  · intro h
    obtain ⟨hcompile, hwarning⟩ := compile_of_misspelled h
    exact ⟨.empty, hcompile, rfl, hwarning⟩
  · intro h
    obtain ⟨a, -, -, hwarning⟩ := h
    apply Bool.eq_false_iff.mpr
    intro hwell
    rw [warnings_of_wellSpelled hwell] at hwarning
    contradiction

/-- **What is forgiven.** A text, or none at all, is misspelled iff building reports an invalid
character, and iff compiling comes to an automaton without states and one warning. Then the
place reported is the beginning if there is nothing to read, and else the first character that
is no symbol, whatever else is wrong in front of it. All other texts compile as they are built,
without a warning: to an automaton with states, or with a fault in their parentheses or
operands. -/
theorem forgiven_iff_misspelled (regex : Option String) :
    (wellSpelled regex = false ↔
      ∃ cause source position, build regex = .error (.regex cause source position) ∧
        cause.kind = .invalidCharacter) ∧
    (wellSpelled regex = false ↔
      ∃ a, compile regex = .ok a ∧ a.isEmpty = true ∧
        (warnings (compileLogged regex).records).length = 1) ∧
    (wellSpelled regex = false →
      ∃ fault report, SpellingFault regex fault ∧
        build regex = .error fault ∧ fault.report? = some report ∧
        compile regex = .ok .empty ∧
        warnings (compileLogged regex).records = [.rejected report]) ∧
    (wellSpelled regex = true →
      compile regex = build regex ∧
        warnings (compileLogged regex).records = [] ∧
        ((∃ a, build regex = .ok a ∧ 2 ≤ a.size) ∨
          ∃ (w : String) (cause : Cause) (position : Int), regex = some w ∧
            build regex = .error (.regex cause w position) ∧
            (cause.kind = .unbalancedParenthesis ∨ cause.kind = .operandMismatch))) := by
  refine ⟨misspelled_iff_invalidCharacter _, misspelled_iff_warning _, ?_, ?_⟩
  · intro h
    obtain ⟨fault, hfault⟩ := exists_spellingFault h
    obtain ⟨report, hreport, hcompile⟩ := compileLogged_of_spellingFault hfault
    refine ⟨fault, report, hfault, build_of_spellingFault hfault, hreport,
      (compile_of_misspelled h).1, ?_⟩
    rw [hcompile]
    rfl
  · intro h
    obtain ⟨w, rfl⟩ := exists_text_of_wellSpelled h
    refine ⟨compile_of_wellSpelled h, warnings_of_wellSpelled h, ?_⟩
    rcases build_of_wellSpelled h with hbuilt | ⟨cause, position, hbuild, hkind⟩
    · exact .inl hbuilt
    · exact .inr ⟨w, cause, position, rfl, hbuild, hkind⟩

/-- The parenthesis is one too many, but the question mark is what is reported. -/
example : build "a)?" = .error (.regex (.strayText "?") "a)?" 2) := rfl

end RegexAutomata
