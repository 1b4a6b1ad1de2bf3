import RegexAutomata.Automaton.Fragment
import RegexAutomata.Regex.Journal

/-!
# The two-stack machine

Regexes are read from left to right, with a stack of marks and a stack of automata. A star is
applied at once. Every other operator waits as a mark until its group is closed or the regex
ends, when the marks are taken off from the top: that groups alternatives to the right. Taking
off an alternation has to complete the concatenations on its left first; they form the run of
concatenation marks right below it.

Tops of stacks are heads of lists. The machine can be started in any state, so every step says
what is missing instead of assuming that the stacks fit together.

Main definitions: `Machine.reduce`, `Machine.closeGroup`, `Machine.shift`, `Machine.drain`,
`Machine.scan`.
-/

namespace RegexAutomata

/-- A reading that is under way. -/
structure Machine where
  /-- The regex, for reports. -/
  regex : String
  marks : List Mark
  operands : List Automaton
  /-- Whether the last token ended an operand. -/
  afterOperand : Bool
  /-- The number of groups still open. -/
  openGroups : Int

namespace Machine

/-- A machine that has read nothing. -/
def start (regex : String) : Machine :=
  ⟨regex, [], [], false, 0⟩

/-- A fault of the regex that is read. -/
def fault (m : Machine) (cause : Cause) (position : Int) : Fault :=
  .regex cause m.regex position

/-- Takes the top operand off. -/
def takeTop (m : Machine) (position : Int) : Except Fault (Automaton × Machine) :=
  match m.operands with
  | [] => .error (m.fault .noOperand position)
  | top :: below => .ok (top, { m with operands := below })

/-- Replaces the two top operands by the upper one behind the lower one. -/
def concatenate (m : Machine) (position : Int) : Except Fault Machine :=
  match m.operands with
  | right :: left :: below =>
    (left.append? right).map fun joined => { m with operands := joined :: below }
  | _ => .error (m.fault .noOperand position)

/-- Replaces the top operand and what stands to its left by a choice of both. To its left
stand as many operands as the run of concatenation marks on top joins; the run is taken
off. -/
def choose (m : Machine) (position : Int) : Except Fault Machine :=
  match m.operands with
  | [] => .error (m.fault .noOperand position)
  | right :: below =>
    let run := m.marks.takeWhile (· = .concatenation)
    let count := run.length + 1
    if below.length < count then .error (m.fault .noOperand position)
    else
      (Automaton.appendAll? (below.take count).reverse).map fun left =>
        { m with
          marks := m.marks.dropWhile (· = .concatenation)
          operands := left.alternate right :: below.drop count }

/-- Takes the top mark off and does what it says. A group mark says nothing. -/
def reduce (m : Machine) (position : Int) : Except Fault Machine :=
  match m.marks with
  | [] => .error .emptySequence
  | mark :: below =>
    let rest := { m with marks := below }
    match mark with
    | .concatenation => rest.concatenate position
    | .alternation => rest.choose position
    | .group => .ok rest
    | .foreign text => .error (.unsupportedOperator text)

/-- Concatenating takes no marks off. -/
theorem marks_of_concatenate {m m' : Machine} {position : Int}
    (h : m.concatenate position = .ok m') : m'.marks = m.marks := by
  unfold concatenate at h
  split at h
  · next right left below _ =>
    cases hjoin : left.append? right with
    | error fault => simp [hjoin, Except.map] at h
    | ok joined =>
      simp only [hjoin, Except.map, Except.ok.injEq] at h
      subst h
      rfl
  · contradiction

/-- A choice takes the run of concatenation marks off. -/
theorem marks_of_choose {m m' : Machine} {position : Int}
    (h : m.choose position = .ok m') :
    m'.marks = m.marks.dropWhile (· = .concatenation) := by
  unfold choose at h
  split at h
  · contradiction
  · next right below _ =>
    simp only at h
    split at h
    · contradiction
    · cases hleft : Automaton.appendAll?
        (below.take ((m.marks.takeWhile (· = .concatenation)).length + 1)).reverse with
      | error fault => simp [hleft, Except.map] at h
      | ok left =>
        simp only [hleft, Except.map, Except.ok.injEq] at h
        subst h
        rfl

/-- Every reduction takes a mark off. -/
theorem marks_lt_of_reduce {m m' : Machine} {position : Int}
    (h : m.reduce position = .ok m') : m'.marks.length < m.marks.length := by
  unfold reduce at h
  split at h
  · contradiction
  · next mark below hmarks =>
    rw [hmarks]
    cases mark with
    | concatenation =>
      rw [marks_of_concatenate h]
      exact Nat.lt_succ_self _
    | alternation =>
      rw [marks_of_choose h]
      exact Nat.lt_succ_of_le (List.dropWhile_sublist _).length_le
    | group =>
      simp only [Except.ok.injEq] at h
      subst h
      exact Nat.lt_succ_self _
    | foreign text => contradiction

/-- Reduces until the top mark is a group mark, and takes that off, too. -/
def closeGroup (m : Machine) (position : Int) : Logged Machine :=
  match m.marks with
  | [] => .fail .emptySequence
  | mark :: below =>
    if mark = .group then .value { m with marks := below }
    else
      .after (.reduce mark m.operands.length) <|
        match _h : m.reduce position with
        | .error fault => .fail fault
        | .ok next => next.closeGroup position
termination_by m.marks.length
decreasing_by exact marks_lt_of_reduce _h

/-- Reduces until no mark is left. -/
def drain (m : Machine) (position : Int) : Logged Machine :=
  match m.marks with
  | [] => .value m
  | mark :: _ =>
    if m.operands.isEmpty then .fail (m.fault .marksLeft position)
    else
      .after (.reduce mark m.operands.length) <|
        match _h : m.reduce position with
        | .error fault => .fail fault
        | .ok next => next.drain position
termination_by m.marks.length
decreasing_by exact marks_lt_of_reduce _h

/-- The marks when an operand begins: behind another operand it is concatenated. -/
def marksBeforeOperand (m : Machine) : List Mark :=
  if m.afterOperand then .concatenation :: m.marks else m.marks

/-- Puts a literal on the operands. -/
def takeLiteral (m : Machine) (c : Char) : Machine :=
  { m with
    marks := m.marksBeforeOperand
    operands := .single c :: m.operands
    afterOperand := true }

/-- Repeats the top operand. -/
def takeStar (m : Machine) (position : Int) : Except Fault Machine :=
  if !m.afterOperand then .error (m.fault .nothingToRepeat position)
  else
    (m.takeTop position).map fun (top, rest) =>
      { rest with operands := top.star :: rest.operands }

/-- Opens a group. -/
def takeOpening (m : Machine) : Machine :=
  { m with
    marks := .group :: m.marksBeforeOperand
    openGroups := m.openGroups + 1
    afterOperand := false }

/-- Closes the innermost group, which thereby is an operand. That no group is open is noticed
before the group turns out to be incomplete. -/
def takeClosing (m : Machine) (position : Int) : Logged Machine :=
  if m.openGroups = 0 then .fail (m.fault .nothingOpen position)
  else if !m.afterOperand then .fail (m.fault .emptyGroup position)
  else { m with openGroups := m.openGroups - 1 }.closeGroup position

/-- Begins another alternative. -/
def takeBar (m : Machine) (position : Int) : Except Fault Machine :=
  if !m.afterOperand then .error (m.fault .missingLeft position)
  else .ok { m with marks := .alternation :: m.marks, afterOperand := false }

/-- Takes a token in, once it is recorded. -/
def shift (m : Machine) (token : Token) (position : Int) : Logged Machine :=
  .after (.shift token m.marks.reverse m.operands.length) <|
    match token with
    | .literal c => .value (m.takeLiteral c)
    | .star => ⟨[], m.takeStar position⟩
    | .bar => ⟨[], m.takeBar position⟩
    | .opening => .value m.takeOpening
    | .closing => m.takeClosing position
    | .foreign text => .fail (m.fault (.strayText text) position)

/-- Takes the characters in, the first of them at the given position. -/
def scan (m : Machine) (position : Nat) : List Char → Logged Machine
  | [] => .value m
  | c :: rest =>
    (m.shift (.ofChar c) position).andThen fun next => next.scan (position + 1) rest

/-- The automaton of the regex, when all of it, up to the given position, has been read. -/
def finish (m : Machine) (position : Int) : Logged Automaton :=
  if !m.afterOperand then .fail (m.fault .missingRight position)
  else
    (m.drain position).andThen fun drained =>
      match drained.takeTop position with
      | .error fault => .fail fault
      | .ok (top, rest) =>
        if rest.operands.isEmpty then .after (.compiled m.regex top) (.value top)
        else .fail (m.fault (.operandsLeft m.regex) position)

end Machine

end RegexAutomata
