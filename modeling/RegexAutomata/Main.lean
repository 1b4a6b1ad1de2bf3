import RegexAutomata.Shell.Invocation

/-!
# The command line program

Reads and prints; what to print is said by `RegexAutomata.Shell`. Standard input is answered
line by line.
-/

namespace RegexAutomata.Shell

/-- Prints what a session left behind. -/
def Transcript.print (t : Transcript) : IO UInt32 := do
  IO.print t.output
  for record in t.log do
    IO.eprintln record.text
  IO.eprint t.errors
  return t.exitCode.toUInt32

/-- Answers the lines of the standard input until the session is over. -/
partial def converse (format : Format) (showUsage : Bool) (input : IO.FS.Stream) :
    IO UInt32 := do
  let line ← input.getLine
  if line.isEmpty then return 0
  match respond format showUsage line with
  | .quit => return 0
  | .failed fault log => (Transcript.failure fault log).print
  | .printed text log =>
    let _ ← (Transcript.blank.after text log).print
    converse format showUsage input

end RegexAutomata.Shell

open RegexAutomata.Shell in
/-- Does what the command line asks for. -/
def main (arguments : List String) : IO UInt32 := do
  match request arguments with
  | .help =>
    IO.println "usage: [--format list|table|dot] [--quiet] [regex ...]"
    return 0
  | .misuse =>
    IO.eprintln "usage: [--format list|table|dot] [--quiet] [regex ...]"
    return 2
  | .run options =>
    if options.regexes.isEmpty then
      let showUsage := !options.quiet
      if showUsage then IO.println usage
      converse options.format showUsage (← IO.getStdin)
    else (options.session "").print
