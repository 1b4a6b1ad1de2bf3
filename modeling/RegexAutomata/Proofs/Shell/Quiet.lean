import RegexAutomata.Proofs.Shell.Positional

/-!
# Regexes on the standard input

A quiet invocation without regexes holds a session over the lines of the standard input
(`invoke_of_quiet`), and one with regexes holds a session over these (`invoke_of_request`). So
the same regexes have the same outcome either way, as long as they can be told apart on the
standard input: cutting a text where each line is followed by a line feed gives the lines back
(`lines_join`), because a line feed is all that ends a line.

Everything else that a session does, from the carriage return at the end of a line to the word
that ends it, it does to a line wherever the line comes from.

Main result: `invoke_quiet_eq_positional`.
-/

namespace RegexAutomata

namespace Text

/-- The first line of a text ends at the first line feed. -/
theorem linesOf_append {line : List Char} (h : '\n' ∉ line) (rest : List Char) :
    linesOf (line ++ '\n' :: rest) = line :: linesOf rest := by
  induction line with
  | nil => exact if_pos rfl
  | cons c line ih =>
    rw [List.mem_cons, not_or] at h
    rw [List.cons_append, linesOf, if_neg (Ne.symm h.1), ih h.2]

/-- Lines with a line feed behind each are the lines of the whole text. -/
theorem lines_join {texts : List String} (h : ∀ text ∈ texts, '\n' ∉ text.toList) :
    lines (String.join (texts.map (· ++ "\n"))) = texts := by
  induction texts with
  | nil => rfl
  | cons text texts ih =>
    rw [List.forall_mem_cons] at h
    have hrest := ih h.2
    unfold lines at hrest ⊢
    have htext : (String.join ((text :: texts).map (· ++ "\n"))).toList
        = text.toList ++ '\n' :: (String.join (texts.map (· ++ "\n"))).toList := by
      rw [List.map_cons, String.join_cons, String.toList_append, String.toList_append,
        List.append_assoc]
      rfl
    rw [htext, linesOf_append h.1, List.map_cons, hrest, String.ofList_toList]

end Text

namespace Shell

variable {format : Format} {name : String}

/-- A format and the wish to be quiet are what is asked for. -/
theorem request_quiet (hname : Format.named? name = some format) :
    request ["--quiet", "--format", name] = .run ⟨format, true, []⟩ := by
  have hsorted : sortAll? ["--quiet", "--format", name]
      = some [.switch .quiet none, .switch .format none, .operand name] := by
    have hrest := sortAll?_of_plain (List.forall_mem_singleton.mpr (head?_of_named hname))
    rw [sortAll?, if_neg (by decide), sortAll?, if_neg (by decide), hrest]
    rfl
  unfold request
  rw [hsorted]
  show take _ _ _ _ = _
  rw [take, take_format hname]
  rfl

/-- Without regexes on the command line a quiet session is held over the lines of the standard
input, and nothing is printed in front of it. -/
theorem invoke_of_quiet {arguments : List String}
    (h : request arguments = .run ⟨format, true, []⟩) (input : String) :
    invoke arguments input = .held (session format false (Text.lines input)) := by
  unfold invoke
  rw [h]
  show Outcome.held (.after "" [] (session format false (Text.lines input))) = _
  unfold Transcript.after
  rw [String.empty_append, List.nil_append]

/-- **Regexes on the command line and on the standard input.** Let some regexes, without line
feeds and not beginning like options, stand behind a format. A quiet invocation that finds them
on the standard input, each followed by a line feed, has the same outcome: the session over
these regexes, with its output, its errors, its exit code and its warnings. -/
theorem invoke_quiet_eq_positional (format : Format) (name : String) (regexes : List String)
    (input : String) (hname : Format.named? name = some format) (hne : regexes ≠ [])
    (hplain : ∀ regex ∈ regexes, regex.toList.head? ≠ some '-')
    (hline : ∀ regex ∈ regexes, '\n' ∉ regex.toList) :
    invoke ["--quiet", "--format", name] (String.join (regexes.map (· ++ "\n")))
        = invoke ("--format" :: name :: regexes) input ∧
      invoke ("--format" :: name :: regexes) input = .held (session format false regexes) := by
  have hpositional := invoke_of_request (request_positional hname hplain) hne input
  refine ⟨?_, hpositional⟩
  rw [hpositional, invoke_of_quiet (request_quiet hname), Text.lines_join hline]

/-- A line that ends in a carriage return, an empty one, one that lacks an operand, and one more
that is not looked at. -/
theorem invoke_quiet_missing_operand :
    invoke ["--quiet", "--format", "table"] "a\r\n\nb|\nc\n"
        = invoke ["--format", "table", "a\r", "", "b|", "c"] "d\n" ∧
      ∃ t, invoke ["--format", "table", "a\r", "", "b|", "c"] "d\n" = .held t ∧
        t.exitCode = 1 := by
  obtain ⟨hsame, hheld⟩ := invoke_quiet_eq_positional .table "table" ["a\r", "", "b|", "c"] "d\n"
    rfl (List.cons_ne_nil _ _) (by decide) (by decide)
  refine ⟨hsame, _, hheld, ?_⟩
  have hreturn : goesOn (regexOf "a\r") = true := by
    show goesOn "a" = true
    let tree : Phrase .regex := .only (.alone (.plain (.literal 'a' rfl)))
    have hbuild : build "a" = .ok tree.automaton := build_of_text (k := 0) rfl
    exact goesOn_iff.mpr ⟨rfl, _, (compile_of_wellSpelled rfl).trans hbuild⟩
  have hempty : goesOn (regexOf "") = true := rfl
  have hfault : compile (regexOf "b|") = .error (.regex .missingRight "b|" 2) := rfl
  rw [session_cons_of_goesOn hreturn, session_cons_of_goesOn hempty, session_of_error hfault]
  rfl

end Shell

end RegexAutomata
