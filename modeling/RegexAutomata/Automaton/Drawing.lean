import RegexAutomata.Automaton.Basic

/-!
# Automata as drawings

The source of a drawing in the DOT language: the states as circles, the accepting one doubled,
a point that marks the start, and the arrows.

Names and labels are identifiers of that language: words, numerals and texts in angle brackets
stand as they are, unless they are keywords; any other text is put between double quotes.

The arrows are meant to carry the symbols of a regex: letters, which are their own labels, and the
sign of the empty word. Of other symbols nothing is said. Between quotes, say, a backslash would
not always stand for itself.
-/

namespace RegexAutomata

namespace Drawing

/-- A character a word of the language begins with. -/
def startsWord (c : Char) : Bool :=
  c.isAlpha || c == '_'

/-- A word of the language. -/
def isWord : List Char → Bool
  | [] => false
  | c :: rest => startsWord c && rest.all fun d => startsWord d || d.isDigit

/-- A numeral without sign: digits and a point, with a digit somewhere, and with a digit after
a point that comes first. -/
def isUnsigned (text : List Char) : Bool :=
  let whole := text.takeWhile Char.isDigit
  match text.dropWhile Char.isDigit with
  | [] => !whole.isEmpty
  | c :: fraction =>
    c == '.' && fraction.all Char.isDigit && !(whole.isEmpty && fraction.isEmpty)

/-- A numeral of the language. -/
def isNumeral : List Char → Bool
  | '-' :: rest => isUnsigned rest
  | text => isUnsigned text

/-- The text without one line feed at its end, which no test of an identifier looks at. -/
def withoutLineEnd (text : List Char) : List Char :=
  if text.getLast? = some '\n' then text.dropLast else text

/-- A text in angle brackets. -/
def isBracketed : List Char → Bool
  | '<' :: rest => rest.getLast? == some '>'
  | _ => false

/-- The words that mean something to the language, in any case. -/
def keywords : List String :=
  ["node", "edge", "graph", "digraph", "subgraph", "strict"]

/-- Whether the text is an identifier as it stands. -/
def isBare (text : String) : Bool :=
  let core := withoutLineEnd text.toList
  isBracketed core ||
    ((isWord core || isNumeral core) && !keywords.contains text.toLower)

/-- The text between double quotes, in which a double quote is preceded by an odd number of
backslashes: one more is written where their number is even. `odd` tells whether an odd number
was just passed. -/
def escapeQuotes (odd : Bool) : List Char → List Char
  | [] => []
  | c :: rest =>
    if c = '"' then
      if odd then c :: escapeQuotes false rest else '\\' :: c :: escapeQuotes false rest
    else c :: escapeQuotes (c == '\\' && !odd) rest

/-- The text as an identifier. -/
def identifier (text : String) : String :=
  if isBare text then text
  else String.ofList ('"' :: escapeQuotes false text.toList ++ ['"'])

/-- A statement on a line of its own. -/
def statement (text : String) : String :=
  "\t" ++ text ++ "\n"

/-- The statement of a node. -/
def node (name label shape : String) : String :=
  statement (name ++ " [label=" ++ identifier label ++ " shape=" ++ shape ++ "]")

end Drawing

open Drawing

/-- The node of a state. -/
def Automaton.stateNode (a : Automaton) (state : Int) : String :=
  node (identifier (toString state)) (toString state)
    (if state = a.accept then "doublecircle" else "circle")

/-- The edge of an arrow, labelled with its letter; the empty word is shown by its usual letter. -/
def Arrow.edge (arrow : Arrow) : String :=
  let label := if arrow.symbol = epsilon then "ε" else String.singleton arrow.symbol
  statement (identifier (toString arrow.source) ++ " -> " ++ identifier (toString arrow.target)
    ++ " [label=" ++ identifier label ++ "]")

/-- The first line of a graph, with its name unless that is empty. -/
def graphHead (name : String) : String :=
  if name.isEmpty then "digraph \x7b\n" else "digraph " ++ identifier name ++ " \x7b\n"

/-- The mark of the start, with the edge to it. -/
def startMark : String :=
  node "start" "" "point" ++ statement ("start -> " ++ identifier (toString startState))

/-- The source of the drawing. -/
def Automaton.graph (a : Automaton) (name : String) : String :=
  graphHead name ++ statement "rankdir=LR"
    ++ String.join (a.states.map a.stateNode)
    ++ (if a.isEmpty then "" else startMark)
    ++ String.join (a.arrows.map Arrow.edge)
    ++ "\x7d\n"

end RegexAutomata
