import RegexAutomata.Automaton.Fragment

/-!
# The grammar of regexes

Which texts are regexes, how they are put together, and which words they match, said without
the machine that reads them.

A regex is one or more terms between bars, a term is one or more factors side by side, a factor
is an atom followed by any number of stars, and an atom is a literal or a regex in
parentheses. A `Phrase` is the tree of such a text; its rank says what it is the tree of.
Factors are joined to the left, terms to the right, so that each text has one tree at most.

Main definitions: `Phrase`, with `Phrase.text` for the text, `Phrase.Matches` for the words,
and `Phrase.automaton` for the automaton that follows the tree.
-/

namespace RegexAutomata

/-- The four ranks of the grammar. -/
inductive Rank where
  | atom
  | factor
  | term
  | regex

/-- The trees of the grammar, by rank. -/
inductive Phrase : Rank → Type where
  /-- A letter or the sign of the empty word. -/
  | literal (c : Char) (isLiteral : Symbol.isLiteral c = true) : Phrase .atom
  /-- A regex in parentheses. -/
  | group (inner : Phrase .regex) : Phrase .atom
  /-- An atom without stars. -/
  | plain (atom : Phrase .atom) : Phrase .factor
  /-- A factor with one more star. -/
  | starred (factor : Phrase .factor) : Phrase .factor
  /-- A term of one factor. -/
  | alone (factor : Phrase .factor) : Phrase .term
  /-- A term with one more factor. -/
  | followed (term : Phrase .term) (factor : Phrase .factor) : Phrase .term
  /-- A regex of one term. -/
  | only (term : Phrase .term) : Phrase .regex
  /-- A term and, behind a bar, the other terms. -/
  | either (term : Phrase .term) (others : Phrase .regex) : Phrase .regex

namespace Phrase

/-- The text of a tree. -/
def text {rank : Rank} : Phrase rank → List Char
  | literal c _ => [c]
  | group inner => '(' :: inner.text ++ [')']
  | plain atom => atom.text
  | starred factor => factor.text ++ ['*']
  | alone factor => factor.text
  | followed term factor => term.text ++ factor.text
  | only term => term.text
  | either term others => term.text ++ '|' :: others.text

/-- The words of a tree: a literal matches itself, but the sign of the empty word matches the
empty word; the rest goes by concatenation, choice and repetition of words. -/
def Matches {rank : Rank} : Phrase rank → List Char → Prop
  | literal c _, word => word = if c = epsilon then [] else [c]
  | group inner, word => inner.Matches word
  | plain atom, word => atom.Matches word
  | starred factor, word =>
    ∃ parts : List (List Char), (∀ part ∈ parts, factor.Matches part) ∧ word = parts.flatten
  | alone factor, word => factor.Matches word
  | followed term factor, word =>
    ∃ front back, term.Matches front ∧ factor.Matches back ∧ word = front ++ back
  | only term, word => term.Matches word
  | either term others, word => term.Matches word ∨ others.Matches word

/-- The automaton that is made along a tree: one construction for each literal, star,
neighbour and bar. -/
def automaton {rank : Rank} : Phrase rank → Automaton
  | literal c _ => .single c
  | group inner => inner.automaton
  | plain atom => atom.automaton
  | starred factor => factor.automaton.star
  | alone factor => factor.automaton
  | followed term factor => term.automaton.append factor.automaton
  | only term => term.automaton
  | either term others => term.automaton.alternate others.automaton

end Phrase

/-- Whether a text is a regex of the grammar. -/
def IsRegex (text : List Char) : Prop :=
  ∃ regex : Phrase .regex, regex.text = text

end RegexAutomata
