import RegexAutomata.Symbol

/-!
# Tokens and marks

What the reading of a regex works on. A token is what is read: a symbol sorted by what it does.
A mark is what is remembered of it until the operands are complete; one mark, the
concatenation, is written by no symbol and stands between two operands in a row.

Texts that are neither are kept as foreign, because a reading can be started in the middle with
whatever marks one likes.
-/

namespace RegexAutomata

/-- A symbol of a regex by its role. -/
inductive Token where
  | literal (c : Char)
  | star
  | bar
  | opening
  | closing
  | foreign (text : String)
deriving DecidableEq

namespace Token

/-- The token that a character is. -/
def ofChar (c : Char) : Token :=
  if Symbol.isLiteral c then .literal c
  else if c = '*' then .star
  else if c = '|' then .bar
  else if c = '(' then .opening
  else if c = ')' then .closing
  else .foreign (String.singleton c)

theorem ofChar_ne_foreign {c : Char} (h : Symbol.isKnown c = true) (text : String) :
    ofChar c ≠ .foreign text := by
  rcases Symbol.cases_of_isKnown h with hlit | rfl | rfl | rfl | rfl
  · rw [ofChar, if_pos hlit]
    exact nofun
  · rw [show ofChar '(' = .opening from rfl]
    exact nofun
  · rw [show ofChar ')' = .closing from rfl]
    exact nofun
  · rw [show ofChar '*' = .star from rfl]
    exact nofun
  · rw [show ofChar '|' = .bar from rfl]
    exact nofun

/-- The token that a text is. Only a single character can be more than foreign. -/
def ofText (text : String) : Token :=
  match text.toList with
  | [c] => ofChar c
  | _ => .foreign text

/-- The text of a token. -/
def text : Token → String
  | literal c => String.singleton c
  | star => "*"
  | bar => "|"
  | opening => "("
  | closing => ")"
  | foreign text => text

end Token

/-- What waits for operands. -/
inductive Mark where
  /-- Two operands stand side by side. -/
  | concatenation
  /-- Two operands are alternatives. -/
  | alternation
  /-- A group was opened. -/
  | group
  /-- No mark of a regex. -/
  | foreign (text : String)
deriving DecidableEq

namespace Mark

/-- The mark that a text is. -/
def ofText (text : String) : Mark :=
  if text = "~" then .concatenation
  else if text = "|" then .alternation
  else if text = "(" then .group
  else .foreign text

/-- The text of a mark. -/
def text : Mark → String
  | concatenation => "~"
  | alternation => "|"
  | group => "("
  | foreign text => text

end Mark

end RegexAutomata
