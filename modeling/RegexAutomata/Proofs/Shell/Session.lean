import Mathlib.Data.List.TakeWhile
import RegexAutomata.Proofs.Regex.Forgiveness
import RegexAutomata.Shell.Session

/-!
# How a session goes

A session looks at one line at a time, and what a line brings is decided by its regex alone:
either the session goes on behind it (`goesOn`), with a block printed (`printedFor`), or it ends
there. So a session is cut at the first line behind which it does not go on. In front of the cut
everything is printed and recorded line by line (`session_append`); the line at the cut decides
how the session ends (`session_of_quit`, `session_of_error`), and what follows it is never
looked at.

The two ways to end exclude each other, because a word for quitting always compiles
(`exists_compile_of_isQuit`).

Main result: `session_law`.
-/

namespace RegexAutomata.Shell

/-! ## Lines -/

/-- The regex on a line, without the end of the line. -/
def regexOf (line : String) : String :=
  Text.trimEnd Text.isLineEnd line

/-- Whether a session goes on behind this regex: it is no word for quitting, and it compiles. -/
def goesOn (regex : String) : Bool :=
  !isQuit regex && (compile regex).isOk

/-- What is printed for a regex that compiles. -/
def printedFor (format : Format) (showUsage : Bool) (regex : String) : String :=
  match compile regex with
  | .error _ => ""
  | .ok a => block a format ++ (if showUsage then usage ++ "\n" else "")

variable {format : Format} {showUsage : Bool} {regex line : String} {fault : Fault}

theorem goesOn_iff : goesOn regex = true ↔ isQuit regex = false ∧ ∃ a, compile regex = .ok a := by
  unfold goesOn
  rw [Bool.and_eq_true, Bool.not_eq_true']
  refine and_congr_right fun _ => ?_
  cases compile regex with
  | error fault =>
    refine ⟨fun h => absurd h Bool.false_ne_true, fun h => ?_⟩
    obtain ⟨a, ha⟩ := h
    contradiction
  | ok a => exact ⟨fun _ => ⟨a, rfl⟩, fun _ => rfl⟩

/-- Every text that asks to quit compiles: if it is spelled in symbols, these are letters. -/
theorem exists_compile_of_isQuit (h : isQuit regex = true) : ∃ a, compile regex = .ok a := by
  by_cases hwell : wellSpelled regex = true
  · obtain ⟨hne, hknown⟩ := wellSpelled_iff.mp hwell
    rw [compile_of_wellSpelled hwell]
    apply exists_build_of_literals hne
    intro c hc
    unfold isQuit at h
    rw [Bool.or_eq_true, beq_iff_eq, beq_iff_eq] at h
    rcases h with rfl | hword
    · exact absurd (hknown ':' (by decide)) (by decide)
    · have hlower : c.toLower ∈ "quit".toList := by
        rw [← hword]
        exact List.mem_map_of_mem hc
      rcases Symbol.cases_of_isKnown (hknown c hc) with hlit | rfl | rfl | rfl | rfl
      · exact hlit
      · exact absurd hlower (by decide)
      · exact absurd hlower (by decide)
      · exact absurd hlower (by decide)
      · exact absurd hlower (by decide)
  · exact ⟨_, (compile_of_misspelled (Bool.eq_false_iff.mpr hwell)).1⟩

/-- A regex that does not compile is well spelled, and its fault is one of those reported. -/
theorem of_compile_eq_error (h : compile regex = .error fault) :
    wellSpelled regex = true ∧
      ∃ report, fault.report? = some report ∧ fault.message = report.message := by
  have hwell : wellSpelled regex = true := by
    cases hwell : wellSpelled regex with
    | true => rfl
    | false =>
      rw [(compile_of_misspelled hwell).1] at h
      contradiction
  refine ⟨hwell, ?_⟩
  rw [compile_of_wellSpelled hwell] at h
  rcases build_of_wellSpelled hwell with ⟨a, ha, -⟩ | ⟨cause, position, hbuild, -⟩
  · rw [h] at ha
    contradiction
  · rw [h] at hbuild
    cases hbuild
    exact ⟨_, rfl, rfl⟩

/-- A regex is warned of iff it is misspelled, and only once. -/
theorem length_warnings (regex : String) :
    (warnings (compileLogged regex).records).length = if wellSpelled regex then 0 else 1 := by
  by_cases hwell : wellSpelled regex = true
  · rw [warnings_of_wellSpelled hwell, if_pos hwell]
    rfl
  · rw [if_neg hwell]
    exact (compile_of_misspelled (Bool.eq_false_iff.mpr hwell)).2

/-! ## What a line brings -/

theorem respond_of_goesOn (h : goesOn (regexOf line) = true) :
    respond format showUsage line
      = .printed (printedFor format showUsage (regexOf line))
          (warnings (compileLogged (regexOf line)).records) := by
  obtain ⟨hquit, a, ha⟩ := goesOn_iff.mp h
  have hresult : (compileLogged (regexOf line)).result = .ok a := ha
  unfold respond printedFor
  simp only [show Text.trimEnd Text.isLineEnd line = regexOf line from rfl, hquit, hresult, ha,
    Bool.false_eq_true, if_false]

theorem respond_of_quit (h : isQuit (regexOf line) = true) :
    respond format showUsage line = .quit := by
  unfold respond
  exact if_pos h

/-- A fault is all that its line leaves behind. -/
theorem respond_of_error (h : compile (regexOf line) = .error fault) :
    respond format showUsage line = .failed fault [] := by
  have hquit : isQuit (regexOf line) = false := by
    apply Bool.eq_false_iff.mpr
    intro hquit
    obtain ⟨a, ha⟩ := exists_compile_of_isQuit hquit
    rw [h] at ha
    contradiction
  have hresult : (compileLogged (regexOf line)).result = .error fault := h
  have hlog := warnings_of_wellSpelled (of_compile_eq_error h).1
  unfold respond
  simp only [show Text.trimEnd Text.isLineEnd line = regexOf line from rfl, hquit, hresult, hlog,
    Bool.false_eq_true, if_false]

/-! ## What a session leaves behind -/

theorem session_cons_of_goesOn (h : goesOn (regexOf line) = true) (rest : List String) :
    session format showUsage (line :: rest)
      = .after (printedFor format showUsage (regexOf line))
          (warnings (compileLogged (regexOf line)).records) (session format showUsage rest) := by
  rw [session, respond_of_goesOn h]

theorem session_of_quit (h : isQuit (regexOf line) = true) (rest : List String) :
    session format showUsage (line :: rest) = .blank := by
  rw [session, respond_of_quit h]

theorem session_of_error (h : compile (regexOf line) = .error fault) (rest : List String) :
    session format showUsage (line :: rest) = .failure fault [] := by
  rw [session, respond_of_error h]

/-- Where a session does not go on, it is asked to quit, or the regex does not compile. -/
theorem quit_or_error_of_stop (h : goesOn regex = false) :
    (isQuit regex = true ∧ ∃ a, compile regex = .ok a) ∨ ∃ fault, compile regex = .error fault := by
  cases hcompile : compile regex with
  | error fault => exact .inr ⟨fault, rfl⟩
  | ok a =>
    refine .inl ⟨?_, a, rfl⟩
    cases hquit : isQuit regex with
    | true => rfl
    | false =>
      rw [goesOn_iff.mpr ⟨hquit, a, hcompile⟩] at h
      contradiction

theorem session_of_stop_cons (h : goesOn (regexOf line) = false) (rest later : List String) :
    session format showUsage (line :: rest) = session format showUsage (line :: later) := by
  rcases quit_or_error_of_stop h with ⟨hquit, -⟩ | ⟨fault, hfault⟩
  · rw [session_of_quit hquit, session_of_quit hquit]
  · rw [session_of_error hfault, session_of_error hfault]

/-- A session that goes on behind none of its lines is blank, unless its first line does not
compile. -/
theorem session_of_stop (format : Format) (showUsage : Bool) {lines : List String}
    (h : ∀ line, lines.head? = some line → goesOn (regexOf line) = false) :
    (session format showUsage lines = .blank ∧
        ∀ line fault, lines.head? = some line → compile (regexOf line) ≠ .error fault) ∨
      ∃ line fault, lines.head? = some line ∧ compile (regexOf line) = .error fault ∧
        session format showUsage lines = .failure fault [] := by
  cases lines with
  | nil => exact .inl ⟨rfl, fun line fault hline => nomatch hline⟩
  | cons line rest =>
    rcases quit_or_error_of_stop (h line rfl) with ⟨hquit, a, ha⟩ | ⟨fault, hfault⟩
    · refine .inl ⟨session_of_quit hquit rest, ?_⟩
      intro line' fault hline
      rw [← Option.some.inj hline, ha]
      exact nofun
    · exact .inr ⟨line, fault, rfl, hfault, session_of_error hfault rest⟩

/-- The lines that a session answers with a block: all in front of the first behind which it does
not go on. -/
def answered (lines : List String) : List String :=
  lines.takeWhile fun line => goesOn (regexOf line)

/-- The blocks of the lines, one behind the other. -/
def blocks (format : Format) (showUsage : Bool) (lines : List String) : String :=
  String.join (lines.map fun line => printedFor format showUsage (regexOf line))

/-- The warnings of the lines. -/
def lineWarnings (lines : List String) : List Record :=
  lines.flatMap fun line => warnings (compileLogged (regexOf line)).records

/-- Lines behind which the session goes on print and record each for itself, whatever follows
them. -/
theorem session_append (format : Format) (showUsage : Bool) {front : List String}
    (h : ∀ line ∈ front, goesOn (regexOf line) = true) (rest : List String) :
    session format showUsage (front ++ rest)
      = .after (blocks format showUsage front) (lineWarnings front)
          (session format showUsage rest) := by
  unfold blocks lineWarnings
  induction front with
  | nil =>
    show session format showUsage rest = .after "" [] (session format showUsage rest)
    unfold Transcript.after
    rw [String.empty_append, List.nil_append]
  | cons line front ih =>
    rw [List.forall_mem_cons] at h
    rw [List.cons_append, session_cons_of_goesOn h.1, ih h.2]
    unfold Transcript.after
    rw [List.map_cons, String.join_cons, List.flatMap_cons, String.append_assoc,
      List.append_assoc]

theorem session_answered_append (format : Format) (showUsage : Bool) (lines rest : List String) :
    session format showUsage (answered lines ++ rest)
      = .after (blocks format showUsage (answered lines)) (lineWarnings (answered lines))
          (session format showUsage rest) := by
  apply session_append
  intro line hline
  exact List.mem_takeWhile_imp (p := fun line => goesOn (regexOf line)) hline

/-- What is left when the answered lines are taken away begins with the line that ends the
session. -/
theorem exists_rest (lines : List String) :
    ∃ rest, lines = answered lines ++ rest ∧
      lines[(answered lines).length]? = rest.head? ∧
      ∀ line, rest.head? = some line → goesOn (regexOf line) = false := by
  have hlines : answered lines ++ lines.dropWhile (fun line => goesOn (regexOf line)) = lines :=
    List.takeWhile_append_dropWhile
  refine ⟨_, hlines.symm, ?_, fun line hline => ?_⟩
  · refine (congrArg (·[(answered lines).length]?) hlines.symm).trans ?_
    show (_ ++ _)[_]? = _
    rw [List.getElem?_append_right (Nat.le_refl _), Nat.sub_self, List.head?_eq_getElem?]
  · have hhead := List.head?_dropWhile_not (fun line => goesOn (regexOf line)) lines
    rw [hline] at hhead
    exact hhead

/-- What follows the line at which a session ends is not looked at. -/
theorem session_take_append {format : Format} {showUsage : Bool} {lines : List String}
    (h : lines[(answered lines).length]? = some line) (later : List String) :
    session format showUsage (lines.take ((answered lines).length + 1) ++ later)
      = session format showUsage lines := by
  obtain ⟨rest, hlines, hnext, hstop⟩ := exists_rest lines
  rw [hnext] at h
  obtain ⟨others, rfl⟩ := List.head?_eq_some_iff.mp h
  have htake : lines.take ((answered lines).length + 1) = answered lines ++ [line] :=
    (congrArg _ hlines).trans (List.take_length_add_append 1)
  have hwhole : session format showUsage lines = _ :=
    (congrArg _ hlines).trans (session_answered_append format showUsage lines (line :: others))
  rw [htake, List.append_assoc, session_answered_append, hwhole, List.singleton_append]
  rw [session_of_stop_cons (hstop line rfl) later others]

/-- **The two ends of a session.** Behind the answered lines it is blank, or it fails with the
fault of the next line. -/
theorem session_cases (format : Format) (showUsage : Bool) (lines : List String) :
    (session format showUsage lines
        = .after (blocks format showUsage (answered lines)) (lineWarnings (answered lines)) .blank ∧
      ∀ line fault, lines[(answered lines).length]? = some line →
        compile (regexOf line) ≠ .error fault) ∨
    ∃ line fault, lines[(answered lines).length]? = some line ∧
      compile (regexOf line) = .error fault ∧
      session format showUsage lines
        = .after (blocks format showUsage (answered lines)) (lineWarnings (answered lines))
            (.failure fault []) := by
  obtain ⟨rest, hlines, hnext, hstop⟩ := exists_rest lines
  have hwhole : session format showUsage lines = _ :=
    (congrArg _ hlines).trans (session_answered_append format showUsage lines rest)
  rw [hnext, hwhole]
  rcases session_of_stop format showUsage hstop with
    ⟨hend, hnone⟩ | ⟨line, fault, hline, hfault, hend⟩
  · exact .inl ⟨by rw [hend], hnone⟩
  · exact .inr ⟨line, fault, hline, hfault, by rw [hend]⟩

theorem warnings_append (front rest : List Record) :
    warnings (front ++ rest) = warnings front ++ warnings rest :=
  List.filter_append front rest

theorem warnings_warnings (log : List Record) : warnings (warnings log) = warnings log := by
  unfold warnings
  rw [List.filter_filter]
  simp only [Bool.and_self]

/-- Nothing but warnings is kept of the records of a line. -/
theorem warnings_lineWarnings (lines : List String) :
    warnings (lineWarnings lines) = lineWarnings lines := by
  unfold lineWarnings
  induction lines with
  | nil => rfl
  | cons line lines ih =>
    rw [List.flatMap_cons, warnings_append, ih, warnings_warnings]

theorem length_lineWarnings (lines : List String) :
    (lineWarnings lines).length = lines.countP fun line => !wellSpelled (regexOf line) := by
  unfold lineWarnings
  induction lines with
  | nil => rfl
  | cons line lines ih =>
    rw [List.flatMap_cons, List.length_append, ih, length_warnings, List.countP_cons]
    cases wellSpelled (regexOf line)
    · exact Nat.add_comm _ _
    · exact Nat.add_comm _ _

section Ends

variable (format : Format) (showUsage : Bool) (lines : List String)

theorem output_session :
    (session format showUsage lines).output = blocks format showUsage (answered lines) := by
  rcases session_cases format showUsage lines with ⟨ht, -⟩ | ⟨line, fault, -, -, ht⟩
  · rw [ht]
    exact String.append_empty
  · rw [ht]
    exact String.append_empty

theorem log_session : (session format showUsage lines).log = lineWarnings (answered lines) := by
  rcases session_cases format showUsage lines with ⟨ht, -⟩ | ⟨line, fault, -, -, ht⟩
  · rw [ht]
    exact List.append_nil _
  · rw [ht]
    exact List.append_nil _

theorem exitCode_session_eq_one_iff :
    (session format showUsage lines).exitCode = 1 ↔
      ∃ line fault, lines[(answered lines).length]? = some line ∧
        compile (regexOf line) = .error fault := by
  rcases session_cases format showUsage lines with ⟨ht, hnone⟩ | ⟨line, fault, hline, hfault, ht⟩
  · rw [ht]
    constructor
    · intro hcode
      exact absurd hcode Nat.zero_ne_one
    · intro h
      obtain ⟨line, fault, hline, hfault⟩ := h
      exact absurd hfault (hnone line fault hline)
  · rw [ht]
    exact ⟨fun _ => ⟨line, fault, hline, hfault⟩, fun _ => rfl⟩

/-- A session that does not fail has nothing to say about errors. -/
theorem session_of_exitCode_ne_one (h : (session format showUsage lines).exitCode ≠ 1) :
    (session format showUsage lines).exitCode = 0 ∧
      (session format showUsage lines).errors = "" := by
  rcases session_cases format showUsage lines with ⟨ht, -⟩ | ⟨line, fault, -, -, ht⟩
  · rw [ht]
    exact ⟨rfl, rfl⟩
  · rw [ht] at h
    exact absurd rfl h

variable {lines}

theorem errors_session {line : String} {fault : Fault}
    (hline : lines[(answered lines).length]? = some line)
    (hfault : compile (regexOf line) = .error fault) :
    ∃ report, fault.report? = some report ∧
      (session format showUsage lines).errors = "Error: " ++ report.message ++ "\n" := by
  obtain ⟨-, report, hreport, hmessage⟩ := of_compile_eq_error hfault
  refine ⟨report, hreport, ?_⟩
  rcases session_cases format showUsage lines with ⟨-, hnone⟩ | ⟨line', fault', hline', hfault', ht⟩
  · exact absurd hfault (hnone line fault hline)
  · have heq : line' = line := Option.some.inj (hline'.symm.trans hline)
    rw [heq, hfault] at hfault'
    cases hfault'
    rw [ht, ← hmessage]
    rfl

end Ends

/-- **What a session leaves behind.** It prints the blocks of the lines in front of the first one
that asks to quit or does not compile, in order, each block for its own regex, and nothing else.
The exit code is `1` iff that line is there and does not compile; then the fault is all that is
written as an error, and otherwise nothing is. Only warnings are kept, one for each misspelled
regex in front of that line, and nothing behind it makes a difference. -/
theorem session_law (format : Format) (showUsage : Bool) (lines : List String) :
    (session format showUsage lines).output = blocks format showUsage (answered lines) ∧
    ((session format showUsage lines).exitCode = 1 ↔
      ∃ line fault, lines[(answered lines).length]? = some line ∧
        compile (regexOf line) = .error fault) ∧
    (∀ line fault, lines[(answered lines).length]? = some line →
      compile (regexOf line) = .error fault →
        ∃ report, fault.report? = some report ∧
          (session format showUsage lines).errors = "Error: " ++ report.message ++ "\n") ∧
    ((session format showUsage lines).exitCode ≠ 1 →
      (session format showUsage lines).exitCode = 0 ∧
        (session format showUsage lines).errors = "") ∧
    (warnings (session format showUsage lines).log = (session format showUsage lines).log ∧
      (session format showUsage lines).log.length
        = (answered lines).countP fun line => !wellSpelled (regexOf line)) ∧
    ∀ line, lines[(answered lines).length]? = some line →
      ∀ later, session format showUsage (lines.take ((answered lines).length + 1) ++ later)
        = session format showUsage lines := by
  refine ⟨output_session format showUsage lines, exitCode_session_eq_one_iff format showUsage lines,
    ?_, session_of_exitCode_ne_one format showUsage lines, ?_, ?_⟩
  · intro line fault hline hfault
    exact errors_session format showUsage hline hfault
  · rw [log_session]
    exact ⟨warnings_lineWarnings _, length_lineWarnings _⟩
  · intro line hline later
    exact session_take_append hline later

end RegexAutomata.Shell
