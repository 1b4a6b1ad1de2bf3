import RegexAutomata.Shell.Arguments

/-!
# Invocations

What the program does for a command line and a standard input. Regexes on the command line are
taken for the lines of a session; without any, the lines of the standard input are, and the
usage is shown first and after every line unless it is to be quiet.
-/

namespace RegexAutomata.Shell

/-- How an invocation ends. -/
inductive Outcome where
  /-- The command line asked for help or made no sense. -/
  | ended (exitCode : Nat)
  /-- A session was held. -/
  | held (transcript : Transcript)

/-- The session that options ask for. -/
def Options.session (options : Options) (input : String) : Transcript :=
  if options.regexes.isEmpty then
    let showUsage := !options.quiet
    .after (if showUsage then usage ++ "\n" else "") []
      (Shell.session options.format showUsage (Text.lines input))
  else Shell.session options.format false options.regexes

/-- The outcome of a command line with a standard input. -/
def invoke (arguments : List String) (input : String) : Outcome :=
  match request arguments with
  | .help => .ended 0
  | .misuse => .ended 2
  | .run options => .held (options.session input)

end RegexAutomata.Shell
