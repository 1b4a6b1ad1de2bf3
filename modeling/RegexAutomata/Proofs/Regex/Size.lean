import RegexAutomata.Proofs.Regex.Built

/-!
# The size of built automata

How large an automaton becomes can be counted in the text. A literal brings one state and one
arrow, a bar three states and four arrows, a star two states and four arrows; one state more is
there before anything is read. Parentheses bring nothing, and neither does standing side by
side: `append` adds no arrow, and the state it saves is the one that every automaton counts
before its symbols.

`SizedBy` keeps the account. Each construction writes it forward for the text that stands for
it (`SizedBy.append` and the like), so a phrase accounts for its automaton
(`Phrase.sizedBy_automaton`), and `build_size` says so for whatever is built, with all groups
closed or not.
-/

namespace RegexAutomata

namespace Automaton

/-- The automaton has as many states and arrows as the symbols of the text bring. -/
structure SizedBy (a : Automaton) (text : List Char) : Prop where
  size_eq : a.size
    = text.countP Symbol.isLiteral + 1 + 3 * text.count '|' + 2 * text.count '*'
  length_arrows : a.arrows.length
    = text.countP Symbol.isLiteral + 4 * text.count '|' + 4 * text.count '*'

variable {a l r : Automaton} {text more : List Char}

/-! ## The sizes of the constructions -/

theorem length_arrows_append (l r : Automaton) :
    (l.append r).arrows.length = l.arrows.length + r.arrows.length := by
  unfold append glue
  rw [List.length_append, List.length_map]

theorem size_alternate (l r : Automaton) : (l.alternate r).size = l.size + r.size + 2 :=
  size_numbered _

theorem length_arrows_alternate (l r : Automaton) :
    (l.alternate r).arrows.length = l.arrows.length + r.arrows.length + 4 := by
  simp only [alternate, List.length_append, List.length_map, List.length_cons, List.length_nil]
  omega

theorem size_star (a : Automaton) : a.star.size = a.size + 2 :=
  size_numbered _

theorem length_arrows_star (a : Automaton) : a.star.arrows.length = a.arrows.length + 4 := by
  simp only [star, List.length_append, List.length_map, List.length_cons, List.length_nil]
  omega

/-! ## The account of each construction -/

theorem sizedBy_single {c : Char} (h : Symbol.isLiteral c = true) : SizedBy (single c) [c] := by
  have hne : ∀ operator, Symbol.isLiteral operator = false → c ≠ operator :=
    fun _ => Symbol.ne_of_isLiteral h
  have hliteral : [c].countP Symbol.isLiteral = 1 := by
    rw [List.countP_singleton, if_pos h]
  have hbar : [c].count '|' = 0 := List.count_eq_zero.mpr fun hmem =>
    hne '|' rfl (List.mem_singleton.mp hmem).symm
  have hstar : [c].count '*' = 0 := List.count_eq_zero.mpr fun hmem =>
    hne '*' rfl (List.mem_singleton.mp hmem).symm
  constructor
  · rw [hliteral, hbar, hstar]
    rfl
  · rw [hliteral, hbar, hstar]
    rfl

namespace SizedBy

/-- The start of the right side is counted, but falls together with a state of the left. -/
theorem append (hl : Compact l) (hr : Compact r) (sl : SizedBy l text) (sr : SizedBy r more) :
    SizedBy (l.append r) (text ++ more) := by
  obtain ⟨hsizel, harrowsl⟩ := sl
  obtain ⟨hsizer, harrowsr⟩ := sr
  constructor
  · rw [hl.size_append hr, List.countP_append, List.count_append, List.count_append]
    omega
  · rw [length_arrows_append, List.countP_append, List.count_append, List.count_append]
    omega

theorem alternate (sl : SizedBy l text) (sr : SizedBy r more) :
    SizedBy (l.alternate r) (text ++ '|' :: more) := by
  obtain ⟨hsizel, harrowsl⟩ := sl
  obtain ⟨hsizer, harrowsr⟩ := sr
  have hliteral : ('|' :: more).countP Symbol.isLiteral = more.countP Symbol.isLiteral :=
    List.countP_cons_of_neg (by decide)
  have hstar : ('|' :: more).count '*' = more.count '*' :=
    List.count_cons_of_ne (by decide)
  constructor
  · rw [size_alternate, List.countP_append, List.count_append, List.count_append, hliteral,
      List.count_cons_self, hstar]
    omega
  · rw [length_arrows_alternate, List.countP_append, List.count_append, List.count_append,
      hliteral, List.count_cons_self, hstar]
    omega

theorem star (sa : SizedBy a text) : SizedBy a.star (text ++ ['*']) := by
  obtain ⟨hsize, harrows⟩ := sa
  have hliteral : ['*'].countP Symbol.isLiteral = 0 := by decide
  have hbar : ['*'].count '|' = 0 := by decide
  constructor
  · rw [size_star, List.countP_append, List.count_append, List.count_append, hliteral, hbar,
      List.count_singleton_self]
    omega
  · rw [length_arrows_star, List.countP_append, List.count_append, List.count_append, hliteral,
      hbar, List.count_singleton_self]
    omega

/-- Only three counts are looked at. -/
theorem of_counts (s : SizedBy a text)
    (hliteral : text.countP Symbol.isLiteral = more.countP Symbol.isLiteral)
    (hbar : text.count '|' = more.count '|') (hstar : text.count '*' = more.count '*') :
    SizedBy a more :=
  ⟨by rw [s.size_eq, hliteral, hbar, hstar], by rw [s.length_arrows, hliteral, hbar, hstar]⟩

theorem iff_of_counts (hliteral : text.countP Symbol.isLiteral = more.countP Symbol.isLiteral)
    (hbar : text.count '|' = more.count '|') (hstar : text.count '*' = more.count '*') :
    SizedBy a text ↔ SizedBy a more :=
  ⟨fun s => s.of_counts hliteral hbar hstar,
    fun s => s.of_counts hliteral.symm hbar.symm hstar.symm⟩

/-- Closing parentheses bring nothing. -/
theorem append_closings_iff (k : Nat) :
    SizedBy a (text ++ List.replicate k ')') ↔ SizedBy a text := by
  have hcount : ∀ c ≠ ')', (text ++ List.replicate k ')').count c = text.count c := by
    intro c hc
    rw [List.count_append, List.count_replicate, if_neg (by simpa using hc.symm), Nat.add_zero]
  apply iff_of_counts
  · rw [List.countP_append, List.countP_replicate, if_neg (by decide), Nat.add_zero]
  · exact hcount '|' (by decide)
  · exact hcount '*' (by decide)

/-- An opening parenthesis brings nothing. -/
theorem cons_opening_iff : SizedBy a ('(' :: text) ↔ SizedBy a text := by
  apply iff_of_counts
  · exact List.countP_cons_of_neg (by decide)
  · exact List.count_cons_of_ne (by decide)
  · exact List.count_cons_of_ne (by decide)

theorem group (s : SizedBy a text) : SizedBy a ('(' :: text ++ [')']) := by
  apply (append_closings_iff 1).mpr
  exact cons_opening_iff.mpr s

end SizedBy

end Automaton

open Automaton (SizedBy)

/-- The text of a phrase accounts for the automaton that is made along the phrase. -/
theorem Phrase.sizedBy_automaton {rank : Rank} (p : Phrase rank) :
    SizedBy p.automaton p.text := by
  induction p with
  | literal c h => exact Automaton.sizedBy_single h
  | group inner ih => exact ih.group
  | plain atom ih => exact ih
  | starred factor ih => exact ih.star
  | alone factor ih => exact ih
  | followed term factor ih ih' =>
    exact ih.append term.isFragment_automaton.toCompact factor.isFragment_automaton.toCompact ih'
  | only term ih => exact ih
  | either term others ih ih' => exact ih.alternate ih'

/-- **The size of what is built.** With `L` literals, `U` bars and `S` stars in the text there
are `L + 1 + 3 U + 2 S` states and `L + 4 U + 4 S` arrows, and the accepting state is
`L + 3 U + 2 S`. Where the parentheses stand and how many are missing makes no difference. -/
theorem build_size (w : String) (a : Automaton) (h : build w = .ok a) :
    a.size = w.toList.countP Symbol.isLiteral + 1 + 3 * w.toList.count '|'
        + 2 * w.toList.count '*' ∧
      a.arrows.length = w.toList.countP Symbol.isLiteral + 4 * w.toList.count '|'
        + 4 * w.toList.count '*' ∧
      a.accept = ((w.toList.countP Symbol.isLiteral + 3 * w.toList.count '|'
        + 2 * w.toList.count '*' : Nat) : Int) := by
  obtain ⟨p, k, htext, rfl⟩ := exists_text_of_build h
  have hsized := p.sizedBy_automaton
  rw [htext, SizedBy.append_closings_iff] at hsized
  have hsize := hsized.size_eq
  have haccept := p.isFragment_automaton.accept_eq
  refine ⟨hsize, hsized.length_arrows, ?_⟩
  omega

/-- Three literals, two bars and two stars, with two groups of which one is left open:
`((a|E)**|b`. -/
theorem build_size_open_group :
    ∃ a, build "((a|E)**|b" = .ok a ∧ a.size = 14 ∧ a.arrows.length = 19 ∧ a.accept = 13 := by
  let choice : Phrase .regex := .either (.alone (.plain (.literal 'a' rfl)))
    (.only (.alone (.plain (.literal 'E' rfl))))
  let tree : Phrase .regex := .only (.alone (.plain (.group
    (.either (.alone (.starred (.starred (.plain (.group choice)))))
      (.only (.alone (.plain (.literal 'b' rfl))))))))
  have hbuild : build "((a|E)**|b" = .ok tree.automaton := build_of_text (k := 1) rfl
  obtain ⟨hsize, harrows, haccept⟩ := build_size _ _ hbuild
  exact ⟨_, hbuild, hsize, harrows, haccept⟩

end RegexAutomata
