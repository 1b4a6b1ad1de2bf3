import RegexAutomata.Automaton.Drawing
import RegexAutomata.Automaton.Listing
import RegexAutomata.Automaton.Table
import RegexAutomata.Regex.Compile
import RegexAutomata.Text.Lines

/-!
# Sessions

A session takes regexes line by line and prints the automaton of each. It ends with the lines,
at a word for quitting, or at the first regex with a fault that compiling does not forgive;
what was printed before stays printed.

What a line brings depends on that line alone (`respond`); `session` strings the answers
together.
-/

namespace RegexAutomata

/-- How automata are printed. -/
inductive Format where
  | list
  | table
  | graph
deriving DecidableEq

/-- The format of that name. -/
def Format.named? (name : String) : Option Format :=
  if name = "list" then some .list
  else if name = "table" then some .table
  else if name = "dot" then some .graph
  else none

/-- The format of that name; the list stands in for names of no format. -/
def Format.orList (name : String) : Format :=
  (named? name).getD .list

/-- The automaton in a format. Graphs are all named alike. -/
def Automaton.render (a : Automaton) : Format → String
  | .list => a.listing
  | .table => a.table
  | .graph => a.graph "nfa"

namespace Shell

/-- What is printed to tell how to use a session. -/
def usage : String :=
  "输入一个正则表达式，本程序仅支持 a-z 的小写字母（E 表示 ε）\n"
    ++ "运算符支持 'a*'、'a|b'、'ab'、'()'\n"
    ++ "退出请输入 ':q' 或者 'quit'"

/-- Whether the line asks to quit. Letter case does not matter for the longer word; folding
ASCII letters is enough for it, since no other character has one of its letters for its lower
case. -/
def isQuit (line : String) : Bool :=
  line == ":q" || line.toList.map Char.toLower == "quit".toList

/-- What is printed for an automaton. -/
def block (a : Automaton) (format : Format) : String :=
  let rendered := a.render format
  "\nNFA:\n" ++ (if rendered.isEmpty then "" else Text.trimEnd (· == '\n') rendered ++ "\n")

/-- What a line brings. -/
inductive Response where
  /-- The session is over. -/
  | quit
  /-- The session is over, because of a fault. -/
  | failed (fault : Fault) (log : List Record)
  /-- Something is printed. -/
  | printed (text : String) (log : List Record)

/-- The response to a line, whose line end does not count. -/
def respond (format : Format) (showUsage : Bool) (line : String) : Response :=
  let regex := Text.trimEnd Text.isLineEnd line
  if isQuit regex then .quit
  else
    let compiled := compileLogged regex
    let log := warnings compiled.records
    match compiled.result with
    | .error fault => .failed fault log
    | .ok a => .printed (block a format ++ (if showUsage then usage ++ "\n" else "")) log

/-- All that a session leaves behind. -/
structure Transcript where
  output : String
  errors : String
  exitCode : Nat
  log : List Record

namespace Transcript

/-- A session in which nothing happens. -/
def blank : Transcript :=
  ⟨"", "", 0, []⟩

/-- A session that ends with a fault. -/
def failure (fault : Fault) (log : List Record) : Transcript :=
  ⟨"", "Error: " ++ fault.message ++ "\n", 1, log⟩

/-- The same session after something else was printed and recorded. -/
def after (text : String) (log : List Record) (t : Transcript) : Transcript :=
  { t with output := text ++ t.output, log := log ++ t.log }

end Transcript

/-- A session over the given lines. -/
def session (format : Format) (showUsage : Bool) : List String → Transcript
  | [] => .blank
  | line :: rest =>
    match respond format showUsage line with
    | .quit => .blank
    | .failed fault log => .failure fault log
    | .printed text log => .after text log (session format showUsage rest)

end Shell

end RegexAutomata
