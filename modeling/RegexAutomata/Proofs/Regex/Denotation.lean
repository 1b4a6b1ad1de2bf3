import Mathlib.Computability.Language
import RegexAutomata.Proofs.Automaton.Gluing
import RegexAutomata.Proofs.Regex.Recognition

/-!
# The language of a regex

A regex denotes a language in the usual way: a letter the word of that letter, `E` the empty
word, factors in a row the product, bars the sum, and a star the Kleene star
(`Phrase.language`). The automaton that is made along the tree reads the words of that language
and no others, construction by construction (`Phrase.reads_automaton_iff`).

`accepts_build_iff` is the whole way: from the text of a regex through the machine to its
automaton, and through the sets of states of an observer to the verdict on a text.
-/

namespace RegexAutomata

namespace Phrase

/-- The language of a phrase, in the operations on languages. The rank is a variable of the
function, although it decides nothing: with it the recursion is one on trees. -/
def language {rank : Rank} : Phrase rank → Language Char
  | literal c _ => if c = epsilon then 1 else {[c]}
  | group inner => inner.language
  | plain atom => atom.language
  | starred factor => KStar.kstar factor.language
  | alone factor => factor.language
  | followed term factor => term.language * factor.language
  | only term => term.language
  | either term others => term.language + others.language

/-- The words that a phrase matches are the words of its language. -/
theorem mem_language_iff {rank : Rank} (p : Phrase rank) :
    ∀ word, word ∈ p.language ↔ p.Matches word := by
  induction p with
  | literal c _ =>
    intro word
    rw [language, Matches]
    split
    · exact Language.mem_one word
    · exact Iff.rfl
  | group inner ih => exact ih
  | plain atom ih => exact ih
  | starred factor ih =>
    intro word
    rw [language, Matches, Language.mem_kstar]
    simp only [ih]
    exact exists_congr fun parts => and_comm
  | alone factor ih => exact ih
  | followed term factor ih ih' =>
    intro word
    rw [language, Matches, Language.mem_mul]
    simp only [ih, ih']
    constructor
    · intro h
      obtain ⟨front, hfront, back, hback, rfl⟩ := h
      exact ⟨front, back, hfront, hback, rfl⟩
    · intro h
      obtain ⟨front, back, hfront, hback, rfl⟩ := h
      exact ⟨front, hfront, back, hback, rfl⟩
  | only term ih => exact ih
  | either term others ih ih' =>
    intro word
    rw [language, Matches, Language.mem_add, ih, ih']

/-- **The automaton along the tree reads what the phrase matches.** -/
theorem reads_automaton_iff {rank : Rank} (p : Phrase rank) :
    ∀ word, p.automaton.Reads word ↔ p.Matches word := by
  induction p with
  | literal c _ => exact Automaton.reads_single c
  | group inner ih => exact ih
  | plain atom ih => exact ih
  | starred factor ih =>
    intro word
    rw [automaton, Matches, Automaton.reads_star factor.isFragment_automaton.toCompact]
    simp only [ih]
  | alone factor ih => exact ih
  | followed term factor ih ih' =>
    intro word
    -- a fragment is never left once it accepts, which is what gluing needs
    have hterm := term.isFragment_automaton
    have hfactor := factor.isFragment_automaton
    rw [automaton, Matches, Automaton.reads_append hterm.toCompact hterm.accept_eq
      hfactor.toCompact (.inl hterm.no_exit)]
    simp only [ih, ih']
  | only term ih => exact ih
  | either term others ih ih' =>
    intro word
    rw [automaton, Matches, Automaton.reads_alternate term.isFragment_automaton.toCompact
      others.isFragment_automaton.toCompact, ih, ih']

end Phrase

/-- **From the text of a regex to its language.** If an automaton is built from a text, closing
the groups that the text leaves open makes it a regex with one tree, and the automaton accepts
exactly the texts in the language of that tree. None of them holds the sign of the empty
word. -/
theorem accepts_build_iff (w : String) (a : Automaton) (h : build w = .ok a) :
    ∃ (k : Nat) (p : Phrase .regex),
      w.toList.count '(' = w.toList.count ')' + k ∧
      p.text = w.toList ++ List.replicate k ')' ∧
      (∀ q : Phrase .regex, q.text = p.text → q = p) ∧
      ∀ text : String,
        (a.observer.accepts text = true ↔ text.toList ∈ p.language) ∧
        (epsilon ∈ text.toList → a.observer.accepts text = false) := by
  obtain ⟨p, k, htext, rfl⟩ := exists_text_of_build h
  have haccepts : ∀ text : String,
      p.automaton.observer.accepts text = true ↔ p.automaton.Reads text.toList :=
    p.automaton.accepts_observer_iff p.isFragment_automaton.states_ne_nil
  refine ⟨k, p, count_of_text htext, htext, fun q hq => Phrase.text_injective hq, fun text => ?_⟩
  refine ⟨?_, fun hepsilon => ?_⟩
  · rw [haccepts, p.reads_automaton_iff, p.mem_language_iff]
  · rw [← Bool.not_eq_true, haccepts]
    intro hreads
    obtain ⟨symbols, -, hword⟩ := hreads
    rw [← hword] at hepsilon
    exact epsilon_notMem_wordOf symbols hepsilon

/-- A regex with a group left open: `b(a*` is the regex `b(a*)`. -/
theorem accepts_build_open_group :
    ∃ a p, build "b(a*" = .ok a ∧ (p : Phrase .regex).text = "b(a*)".toList ∧
      ∀ text : String, a.observer.accepts text = true ↔ text.toList ∈ p.language := by
  let tree : Phrase .regex := .only (.followed (.alone (.plain (.literal 'b' rfl)))
    (.plain (.group (.only (.alone (.starred (.plain (.literal 'a' rfl))))))))
  have hbuild : build "b(a*" = .ok tree.automaton := build_of_text (k := 1) rfl
  obtain ⟨k, p, hcount, htext, -, haccepts⟩ := accepts_build_iff "b(a*" _ hbuild
  have hk : k = 1 := by
    have hcounts : "b(a*".toList.count '(' = 1 ∧ "b(a*".toList.count ')' = 0 := by decide
    omega
  subst hk
  exact ⟨_, p, hbuild, htext, fun text => (haccepts text).1⟩

end RegexAutomata
