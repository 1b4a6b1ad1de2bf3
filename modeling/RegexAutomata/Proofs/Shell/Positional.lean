import RegexAutomata.Proofs.Shell.Session
import RegexAutomata.Shell.Invocation

/-!
# Regexes on the command line

A command line of a format and some regexes is taken as it is meant, as long as no regex begins
like an option (`request_positional`), and then the regexes are the lines of a session
(`invoke_of_request`).

A session, though, ends at a word for quitting, and it does so also where nobody is there to
quit. So the regexes of a command line are compiled one after the other up to the first that
does not compile exactly if none of these is such a word (`compiles_all_iff`); and otherwise the
regexes from that word on are passed over in silence (`quit_word_passed_over`).
-/

namespace RegexAutomata.Shell

/-! ## Taking the command line -/

theorem sort?_of_plain {text : String} (h : text.toList.head? ≠ some '-') :
    sort? text = some (.operand text) := by
  unfold sort?
  split
  · next heq =>
    rw [heq] at h
    contradiction
  · rfl

theorem sortAll?_of_plain {texts : List String} (h : ∀ text ∈ texts, text.toList.head? ≠ some '-') :
    sortAll? texts = some (texts.map .operand) := by
  induction texts with
  | nil => rfl
  | cons text texts ih =>
    rw [List.forall_mem_cons] at h
    have hne : text ≠ "--" := by
      intro heq
      rw [heq] at h
      exact h.1 rfl
    unfold sortAll?
    rw [if_neg hne, sort?_of_plain h.1, ih h.2]
    rfl

/-- A group of regexes is taken as it stands. -/
theorem take_operands (texts : List String) :
    ∀ (options : Options) (group : Group), group ≠ .past →
      take options group false (texts.map .operand)
        = .run { options with regexes := options.regexes ++ texts } := by
  induction texts with
  | nil =>
    intro options group _
    rw [List.append_nil]
    rfl
  | cons text texts ih =>
    intro options group hgroup
    rw [List.map_cons, take, if_neg hgroup, ih _ .inside (by decide), List.append_assoc]
    rfl

variable {format : Format} {name : String} {regexes : List String}

theorem head?_of_named (h : Format.named? name = some format) : name.toList.head? ≠ some '-' := by
  unfold Format.named? at h
  split at h
  · next heq =>
    rw [heq]
    decide
  · split at h
    · next heq =>
      rw [heq]
      decide
    · split at h
      · next heq =>
        rw [heq]
        decide
      · contradiction

/-- The option for a format sets it. -/
theorem take_format (h : Format.named? name = some format) (options : Options) (group : Group)
    (stray : Bool) (rest : List Argument) :
    take options group stray (.switch .format none :: .operand name :: rest)
      = take { options with format } group.closed stray rest := by
  have hne : name ≠ "--" := by
    intro heq
    subst heq
    exact head?_of_named h rfl
  rw [take, formatValue?, if_neg hne, h]

/-- A format and regexes that do not begin like options are what is asked for. -/
theorem request_positional (hname : Format.named? name = some format)
    (hplain : ∀ regex ∈ regexes, regex.toList.head? ≠ some '-') :
    request ("--format" :: name :: regexes) = .run ⟨format, false, regexes⟩ := by
  have hsorted : sortAll? ("--format" :: name :: regexes)
      = some (.switch .format none :: .operand name :: regexes.map .operand) := by
    have hrest := sortAll?_of_plain (List.forall_mem_cons.mpr ⟨head?_of_named hname, hplain⟩)
    rw [sortAll?, if_neg (by decide), hrest]
    rfl
  unfold request
  rw [hsorted]
  show take _ _ _ _ = _
  rw [take_format hname]
  exact take_operands regexes _ _ nofun

/-- With regexes on the command line the standard input is not looked at, and no usage is
shown. -/
theorem invoke_of_request {arguments : List String} {quiet : Bool}
    (h : request arguments = .run ⟨format, quiet, regexes⟩) (hne : regexes ≠ []) (input : String) :
    invoke arguments input = .held (session format false regexes) := by
  unfold invoke
  rw [h]
  show Outcome.held (Options.session _ _) = _
  unfold Options.session
  rw [if_neg (by simpa using hne)]

/-! ## Compiling the regexes -/

/-- A regex without a line end is the regex of its line. -/
theorem regexOf_of_plain {regex : String}
    (h : ∀ c, regex.toList.getLast? = some c → Text.isLineEnd c = false) :
    regexOf regex = regex := by
  unfold regexOf Text.trimEnd
  have hdrop : regex.toList.reverse.dropWhile Text.isLineEnd = regex.toList.reverse := by
    rw [List.getLast?_eq_head?_reverse] at h
    cases hreverse : regex.toList.reverse with
    | nil => rfl
    | cons c rest =>
      rw [hreverse] at h
      exact List.dropWhile_cons_of_neg (by rw [h c rfl]; exact Bool.false_ne_true)
  rw [hdrop, List.reverse_reverse, String.ofList_toList]

/-- The regexes in front of the first that does not compile. -/
def upToFault (regexes : List String) : List String :=
  regexes.takeWhile fun regex => (compile regex).isOk

theorem exists_compile_of_mem_upToFault {regex : String} (h : regex ∈ upToFault regexes) :
    ∃ a, compile regex = .ok a := by
  have hok : (compile regex).isOk = true :=
    List.mem_takeWhile_imp (p := fun regex : String => (compile regex).isOk) h
  cases hcompile : compile regex with
  | error fault =>
    rw [hcompile] at hok
    contradiction
  | ok a => exact ⟨a, rfl⟩

/-- A regex that does not compile is there iff there is a first one. -/
theorem exists_error_iff (regexes : List String) :
    (∃ regex ∈ regexes, ∃ fault, compile regex = .error fault) ↔
      ∃ regex fault, regexes[(upToFault regexes).length]? = some regex ∧
        compile regex = .error fault := by
  unfold upToFault
  induction regexes with
  | nil => simp
  | cons regex regexes ih =>
    cases hcompile : compile regex with
    | error fault =>
      rw [List.takeWhile_cons_of_neg (by rw [hcompile]; exact Bool.false_ne_true)]
      exact ⟨fun _ => ⟨regex, fault, rfl, hcompile⟩,
        fun _ => ⟨regex, List.mem_cons_self, fault, hcompile⟩⟩
    | ok a =>
      rw [List.takeWhile_cons_of_pos (by rw [hcompile]; rfl), List.length_cons,
        List.getElem?_cons_succ, ← ih]
      constructor
      · intro h
        obtain ⟨other, hmem, fault, hfault⟩ := h
        rcases List.mem_cons.mp hmem with rfl | hmem
        · rw [hcompile] at hfault
          contradiction
        · exact ⟨other, hmem, fault, hfault⟩
      · intro h
        obtain ⟨other, hmem, hfault⟩ := h
        exact ⟨other, List.mem_cons_of_mem _ hmem, hfault⟩

/-- Of regexes without line ends a session answers those in front of the first that does not
compile, but only up to a word for quitting. -/
theorem map_regexOf_answered (h : ∀ regex ∈ regexes, regexOf regex = regex) :
    (answered regexes).map regexOf = (upToFault regexes).takeWhile fun regex => !isQuit regex := by
  have hmap : regexes.map regexOf = regexes := (List.map_congr_left h).trans (List.map_id regexes)
  have hboth : (fun regex : String => decide ((!isQuit regex) = true ∧ (compile regex).isOk = true))
      = goesOn := by
    funext regex
    unfold goesOn
    rw [Bool.decide_and, Bool.decide_eq_true, Bool.decide_eq_true]
  unfold upToFault
  rw [List.takeWhile_takeWhile, hboth]
  conv => rhs; rw [← hmap]
  rw [List.takeWhile_map]
  rfl

theorem output_positional (format : Format) (h : ∀ regex ∈ regexes, regexOf regex = regex) :
    (session format false regexes).output
      = String.join (((upToFault regexes).takeWhile fun regex => !isQuit regex).map
          (printedFor format false)) := by
  rw [output_session, ← map_regexOf_answered h, List.map_map]
  rfl

/-- Without words for quitting a session of regexes fails iff one of them does not compile. -/
theorem exitCode_positional (format : Format) (h : ∀ regex ∈ regexes, regexOf regex = regex)
    (hquit : ∀ regex ∈ upToFault regexes, isQuit regex = false) :
    (session format false regexes).exitCode = 1 ↔
      ∃ regex ∈ regexes, ∃ fault, compile regex = .error fault := by
  have hlength : (answered regexes).length = (upToFault regexes).length := by
    have hmap := map_regexOf_answered h
    rw [List.takeWhile_eq_self_iff.mpr fun regex hmem => by rw [hquit regex hmem]; rfl] at hmap
    rw [← hmap, List.length_map]
  have hregex : ∀ regex, regexes[(answered regexes).length]? = some regex →
      regexOf regex = regex := by
    intro regex hmem
    exact h regex (List.mem_of_getElem? hmem)
  rw [exitCode_session_eq_one_iff, exists_error_iff, ← hlength]
  constructor
  · intro hline
    obtain ⟨regex, fault, hmem, hfault⟩ := hline
    rw [hregex regex hmem] at hfault
    exact ⟨regex, fault, hmem, hfault⟩
  · intro hline
    obtain ⟨regex, fault, hmem, hfault⟩ := hline
    rw [← hregex regex hmem] at hfault
    exact ⟨regex, fault, hmem, hfault⟩

theorem printedFor_ne_empty {regex : String} {a : Automaton} (h : compile regex = .ok a)
    (format : Format) (showUsage : Bool) : printedFor format showUsage regex ≠ "" := by
  unfold printedFor
  rw [h]
  intro hempty
  have hlength := congrArg String.length hempty
  simp only [block, String.length_append] at hlength
  have hhead : "\nNFA:\n".length = 6 := by decide
  have hnone : "".length = 0 := rfl
  omega

/-- Where every text prints something, fewer texts print something else. -/
theorem eq_of_join_eq {f : String → String} {front whole : List String} (hfront : front <+: whole)
    (hne : ∀ text ∈ whole, f text ≠ "")
    (h : String.join (front.map f) = String.join (whole.map f)) : front = whole := by
  obtain ⟨more, rfl⟩ := hfront
  cases more with
  | nil => exact (List.append_nil front).symm
  | cons text more =>
    have hlength := congrArg String.length h
    rw [List.map_append, String.join_append, String.length_append, List.map_cons,
      String.join_cons, String.length_append] at hlength
    have hempty : f text = "" := String.length_eq_zero_iff.mp (by omega)
    exact absurd hempty (hne text (List.mem_append_right _ List.mem_cons_self))

/-- **Regexes on a command line.** Let regexes without line ends stand behind a format, none of
them beginning like an option, or be asked for by any other command line. That their blocks are
printed in order up to the first that does not compile, and that the exit code is `1` if there is
such a one and else `0`, holds iff no word for quitting is in front of it. If there is such a word,
the blocks end there. -/
theorem compiles_all_iff (format : Format) (name : String) (regexes : List String)
    (input : String) (hname : Format.named? name = some format) (hne : regexes ≠ [])
    (hplain : ∀ regex ∈ regexes, regex.toList.head? ≠ some '-')
    (hend : ∀ regex ∈ regexes, ∀ c, regex.toList.getLast? = some c → Text.isLineEnd c = false) :
    ∃ t, invoke ("--format" :: name :: regexes) input = .held t ∧
      (∀ arguments quiet input', request arguments = .run ⟨format, quiet, regexes⟩ →
        invoke arguments input' = .held t) ∧
      t.output = String.join (((upToFault regexes).takeWhile fun regex => !isQuit regex).map
        (printedFor format false)) ∧
      ((∀ regex ∈ upToFault regexes, isQuit regex = false) ↔
        t.output = String.join ((upToFault regexes).map (printedFor format false)) ∧
        (t.exitCode = 1 ↔ ∃ regex ∈ regexes, ∃ fault, compile regex = .error fault) ∧
        (t.exitCode = 0 ↔ ∀ regex ∈ regexes, ∃ a, compile regex = .ok a)) := by
  refine ⟨session format false regexes,
    invoke_of_request (request_positional hname hplain) hne input,
    fun arguments quiet input' h => invoke_of_request h hne input', ?_⟩
  have hself : ∀ regex ∈ regexes, regexOf regex = regex :=
    fun regex hmem => regexOf_of_plain (hend regex hmem)
  have houtput := output_positional format hself
  refine ⟨houtput, ?_⟩
  constructor
  · intro hquit
    have hone := exitCode_positional format hself hquit
    rw [List.takeWhile_eq_self_iff.mpr fun regex hmem => by rw [hquit regex hmem]; rfl] at houtput
    refine ⟨houtput, hone, ⟨fun hzero regex hmem => ?_, fun hall => ?_⟩⟩
    · cases hcompile : compile regex with
      | ok a => exact ⟨a, rfl⟩
      | error fault =>
        rw [hone.mpr ⟨regex, hmem, fault, hcompile⟩] at hzero
        contradiction
    · refine (session_of_exitCode_ne_one format false regexes fun hcode => ?_).1
      obtain ⟨regex, hmem, fault, hfault⟩ := hone.mp hcode
      obtain ⟨a, ha⟩ := hall regex hmem
      rw [hfault] at ha
      contradiction
  · intro h
    -- what is printed in full cannot have been cut short
    have hwhole := eq_of_join_eq (List.takeWhile_prefix _)
      (fun regex hmem => by
        obtain ⟨a, ha⟩ := exists_compile_of_mem_upToFault hmem
        exact printedFor_ne_empty ha format false)
      (houtput.symm.trans h.1)
    intro regex hmem
    have hnot := List.takeWhile_eq_self_iff.mp hwhole regex hmem
    rwa [Bool.not_eq_true'] at hnot

/-- Two regexes of which the second lacks an operand at its end. -/
theorem compiles_all_missing_operand :
    ∃ t, invoke ["--format", "table", "ab", "a|"] "" = .held t ∧ t.exitCode = 1 ∧
      t.output = String.join ((upToFault ["ab", "a|"]).map (printedFor .table false)) := by
  have hend : ∀ regex ∈ ["ab", "a|"], ∀ c, regex.toList.getLast? = some c →
      Text.isLineEnd c = false := by
    intro regex hmem c hc
    rcases List.mem_cons.mp hmem with rfl | hmem
    · rw [← Option.some.inj (show some 'b' = some c from hc)]
      rfl
    · rw [List.mem_singleton.mp hmem] at hc
      rw [← Option.some.inj (show some '|' = some c from hc)]
      rfl
  obtain ⟨t, hinvoke, -, -, hiff⟩ := compiles_all_iff .table "table" ["ab", "a|"] "" rfl
    (List.cons_ne_nil _ _) (by decide) hend
  have hquit : ∀ regex ∈ upToFault ["ab", "a|"], isQuit regex = false := by
    intro regex hmem
    have hall : ∀ regex ∈ ["ab", "a|"], isQuit regex = false := by decide
    exact hall regex ((List.takeWhile_prefix _).subset hmem)
  obtain ⟨houtput, hone, -⟩ := hiff.mp hquit
  refine ⟨t, hinvoke, hone.mpr ⟨"a|", by decide, _, rfl⟩, houtput⟩

/-- A word of letters that asks to quit compiles, but it is passed over, and nobody is told. -/
theorem quit_word_passed_over :
    invoke ["--format", "list", "quit"] "" = .held .blank ∧ (∃ a, compile "quit" = .ok a) ∧
      Transcript.blank.output
        ≠ String.join ((upToFault ["quit"]).map (printedFor .list false)) := by
  have hquit : isQuit "quit" = true := rfl
  obtain ⟨a, ha⟩ := exists_compile_of_isQuit hquit
  have hfront : upToFault ["quit"] = ["quit"] :=
    List.takeWhile_cons_of_pos (by rw [ha]; rfl)
  refine ⟨rfl, ⟨a, ha⟩, ?_⟩
  rw [hfront]
  intro hblank
  have hempty : [] = ["quit"] := eq_of_join_eq List.nil_prefix (fun regex hmem => by
    rw [List.mem_singleton.mp hmem]
    exact printedFor_ne_empty ha .list false) hblank
  contradiction

end RegexAutomata.Shell
