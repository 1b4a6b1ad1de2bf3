/-!
# Lines of a text

Cutting a text into lines and characters off its end. Only the line feed ends a line; what
follows the last line feed is a line of its own unless it is empty.
-/

namespace RegexAutomata.Text

/-- The lines of a text, without their line feeds. -/
def linesOf : List Char → List (List Char)
  | [] => []
  | c :: rest =>
    if c = '\n' then [] :: linesOf rest
    else
      match linesOf rest with
      | [] => [[c]]
      | line :: more => (c :: line) :: more

/-- The lines of a text, without their line feeds. -/
def lines (text : String) : List String :=
  (linesOf text.toList).map String.ofList

/-- The text without the characters of a class at its end. -/
def trimEnd (p : Char → Bool) (text : String) : String :=
  String.ofList (text.toList.reverse.dropWhile p).reverse

/-- A character that ends a line in one of the usual conventions. -/
def isLineEnd (c : Char) : Bool :=
  c == '\n' || c == '\r'

end RegexAutomata.Text
