import RegexAutomata.Regex.Machine

/-!
# Compiling a regex

From a text to its automaton. Building fails on every fault. Compiling forgives a text that is
missing, is empty or holds a character that is no symbol: it becomes the empty automaton, and a
warning is recorded.

Main definitions: `build`, `compile`; `buildLogged` and `compileLogged` tell how.
-/

namespace RegexAutomata

/-- Builds the automaton of a regex, if one is given. The characters are looked at before anything
is read, so that a stray one is noticed even behind another fault. -/
def buildLogged : Option String → Logged Automaton
  | none => .fail (.regex .emptyRegex "" 0)
  | some regex =>
    if regex.isEmpty then .fail (.regex .emptyRegex "" 0)
    else
      match firstStray regex.toList with
      | some (index, stray) =>
        .fail (.regex (.strayText (String.singleton stray)) regex index)
      | none =>
        ((Machine.start regex).scan 0 regex.toList).andThen fun read =>
          read.finish regex.length

/-- The automaton of a regex. -/
def build (regex : Option String) : Except Fault Automaton :=
  (buildLogged regex).result

/-- Builds the automaton of a regex and forgives a text that has nothing to be read. -/
def compileLogged (regex : Option String) : Logged Automaton :=
  let built := buildLogged regex
  match built.result with
  | .ok _ => built
  | .error fault =>
    match fault.soft? with
    | none => built
    | some report => ⟨built.records ++ [.rejected report], .ok .empty⟩

/-- The automaton of a regex; the empty one for a text that has nothing to be read. -/
def compile (regex : Option String) : Except Fault Automaton :=
  (compileLogged regex).result

end RegexAutomata
