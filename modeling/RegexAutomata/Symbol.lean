/-!
# Symbols

The characters a regex is written with: the letters `a` to `z`, the sign `E` for the empty
word, and the four operators. `E` is a symbol of the regex and of the automaton, never of the
words that are matched.
-/

namespace RegexAutomata

/-- The sign for the empty word, in a regex and on an arrow. -/
def epsilon : Char := 'E'

namespace Symbol

/-- A letter of the words that regexes match. -/
def isLetter (c : Char) : Bool :=
  'a' ≤ c && c ≤ 'z'

/-- A symbol that is an operand by itself: a letter or the empty word. -/
def isLiteral (c : Char) : Bool :=
  isLetter c || c == epsilon

/-- A symbol that groups, repeats or separates. -/
def isOperator (c : Char) : Bool :=
  c == '(' || c == ')' || c == '*' || c == '|'

/-- A symbol that may stand in a regex. -/
def isKnown (c : Char) : Bool :=
  isLiteral c || isOperator c

theorem cases_of_isKnown {c : Char} (h : isKnown c = true) :
    isLiteral c = true ∨ c = '(' ∨ c = ')' ∨ c = '*' ∨ c = '|' := by
  simpa only [isKnown, isOperator, Bool.or_eq_true, beq_iff_eq, or_assoc] using h

theorem ne_of_isLiteral {c other : Char} (h : isLiteral c = true)
    (hother : isLiteral other = false) : c ≠ other := by
  intro heq
  rw [← heq, h] at hother
  contradiction

/-- A class of symbols as a class of texts: the text has to be a single symbol of it. -/
def inText (p : Char → Bool) (text : String) : Bool :=
  match text.toList with
  | [c] => p c
  | _ => false

end Symbol

/-- The first character that is no symbol of a regex, with its index. -/
def firstStray : List Char → Option (Nat × Char)
  | [] => none
  | c :: rest =>
    if Symbol.isKnown c then (firstStray rest).map fun (index, stray) => (index + 1, stray)
    else some (0, c)

/-- The index of the first character that is no symbol of a regex. -/
def strayIndex? (regex : String) : Option Nat :=
  (firstStray regex.toList).map (·.1)

/-- Whether there is a text, it is not empty and it consists of symbols. Whether its parentheses
and operators fit together is not asked. -/
def wellSpelled : Option String → Bool
  | none => false
  | some regex => !regex.isEmpty && (strayIndex? regex).isNone

end RegexAutomata
