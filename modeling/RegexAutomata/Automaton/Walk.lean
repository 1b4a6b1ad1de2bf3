import RegexAutomata.Automaton.Basic

/-!
# Walks

What an automaton means, said without running it. A walk goes along arrows and collects their
symbols; the word that it reads is what is left without the signs of the empty word. Arrows
that read nothing, arrows that read a letter, and all arrows alike are walked by one relation,
so that closures, runs and reachability are described by the same few facts.

Main definitions: `Walk`, `Automaton.Reads`.
-/

namespace RegexAutomata

/-- `Walk arrows s symbols t`: arrows lead from `s` to `t`, and the symbols on them are, in
order, `symbols`. The walk that stays where it is needs no arrow. -/
inductive Walk (arrows : List Arrow) : Int → List Char → Int → Prop where
  | stay (s : Int) : Walk arrows s [] s
  | step {s u t : Int} {c : Char} {symbols : List Char} (arrow_mem : ⟨s, c, u⟩ ∈ arrows)
      (rest : Walk arrows u symbols t) : Walk arrows s (c :: symbols) t

/-- The word that a walk with these symbols reads. -/
def wordOf (symbols : List Char) : List Char :=
  symbols.filter (· ≠ epsilon)

/-- Some walk from the start to the accepting state reads the word. -/
def Automaton.Reads (a : Automaton) (word : List Char) : Prop :=
  ∃ symbols, Walk a.arrows startState symbols a.accept ∧ wordOf symbols = word

namespace Walk

variable {arrows : List Arrow} {s t u : Int} {symbols more : List Char}

/-- A single arrow is a walk. -/
theorem single {c : Char} (h : ⟨s, c, t⟩ ∈ arrows) : Walk arrows s [c] t :=
  .step h (.stay t)

/-- Walks can be put together where one ends and the other begins. -/
theorem trans (first : Walk arrows s symbols u) (second : Walk arrows u more t) :
    Walk arrows s (symbols ++ more) t := by
  induction first with
  | stay _ => exact second
  | step h _ ih => exact .step h (ih second)

/-- More arrows allow more walks. -/
theorem mono {others : List Arrow} (h : ∀ arrow ∈ arrows, arrow ∈ others)
    (walk : Walk arrows s symbols t) : Walk others s symbols t := by
  induction walk with
  | stay _ => exact .stay _
  | step mem _ ih => exact .step (h _ mem) ih

end Walk

/-- The word of a walk in two parts is the words of both. -/
theorem wordOf_append (symbols more : List Char) :
    wordOf (symbols ++ more) = wordOf symbols ++ wordOf more :=
  List.filter_append symbols more

end RegexAutomata
