import RegexAutomata.Proofs.Regex.Built

/-!
# The letters of built automata

Every letter of a text becomes one arrow of the automaton, and the arrows that read come in the
order of the text: in the list of arrows, and also by number, for each leads from a state to the
next one and the states ascend.

`Spelling` says so of a list of arrows. It does not mind renumbering (`Spelling.shifted`), and two
lists can be put one behind the other when the first lies below the second
(`Spelling.append`). Each construction renumbers its parts into regions that follow each other,
and adds arrows only that read nothing; so a phrase is spelled by its automaton
(`Phrase.spelling_automaton`).

Main result: `build_letters`.
-/

namespace RegexAutomata

/-- The arrows read the word: each reads one letter on the way from a state to the next one, and
the states ascend. -/
structure Spelling (arrows : List Arrow) (word : List Char) : Prop where
  symbols_eq : arrows.map (·.symbol) = word
  target_eq : ∀ arrow ∈ arrows, arrow.target = arrow.source + 1
  ascending : arrows.Pairwise fun first second => first.source < second.source

namespace Spelling

variable {arrows more : List Arrow} {word rest : List Char}

theorem nil : Spelling [] [] :=
  ⟨rfl, nofun, .nil⟩

theorem shifted (h : Spelling arrows word) (offset : Int) :
    Spelling (arrows.map (·.shifted offset)) word := by
  refine ⟨?_, ?_, ?_⟩
  · rw [List.map_map]
    exact h.symbols_eq
  · intro arrow harrow
    obtain ⟨b, hb, rfl⟩ := List.mem_map.mp harrow
    have htarget := h.target_eq b hb
    simp only [Arrow.shifted]
    omega
  · rw [List.pairwise_map]
    exact h.ascending.imp fun hlt => Int.add_lt_add_right hlt offset

theorem append (h : Spelling arrows word) (hmore : Spelling more rest)
    (hbelow : ∀ first ∈ arrows, ∀ second ∈ more, first.source < second.source) :
    Spelling (arrows ++ more) (word ++ rest) := by
  refine ⟨?_, ?_, ?_⟩
  · rw [List.map_append, h.symbols_eq, hmore.symbols_eq]
  · intro arrow harrow
    rcases List.mem_append.mp harrow with harrow | harrow
    · exact h.target_eq arrow harrow
    · exact hmore.target_eq arrow harrow
  · exact List.pairwise_append.mpr ⟨h.ascending, hmore.ascending, hbelow⟩

/-- The arrows written out. -/
theorem eq_map_zip (h : Spelling arrows word) :
    arrows = ((arrows.map (·.source)).zip word).map fun (s, c) => ⟨s, c, s + 1⟩ := by
  rw [← h.symbols_eq, List.zip_map', List.map_map]
  refine (List.map_id _).symm.trans (List.map_congr_left fun arrow harrow => ?_)
  show arrow = ⟨arrow.source, arrow.symbol, arrow.source + 1⟩
  rw [← h.target_eq arrow harrow]

end Spelling

/-! ## The arrows that read -/

namespace Automaton

/-- The arrows that read a letter. -/
def letterArrows (a : Automaton) : List Arrow :=
  a.arrows.filter (·.symbol ≠ epsilon)

theorem filter_shifted (arrows : List Arrow) (offset : Int) :
    (arrows.map (·.shifted offset)).filter (·.symbol ≠ epsilon)
      = (arrows.filter (·.symbol ≠ epsilon)).map (·.shifted offset) := by
  rw [List.filter_map]
  rfl

theorem letterArrows_append (l r : Automaton) :
    (l.append r).letterArrows
      = l.letterArrows ++ r.letterArrows.map (·.shifted (l.states.getLastD startState)) := by
  unfold letterArrows append glue
  rw [List.filter_append, filter_shifted]

theorem letterArrows_alternate (l r : Automaton) :
    (l.alternate r).letterArrows
      = l.letterArrows.map (·.shifted 1) ++ r.letterArrows.map (·.shifted (l.size + 1)) := by
  simp only [letterArrows, alternate, List.filter_append, filter_shifted]
  simp

theorem letterArrows_star (a : Automaton) :
    a.star.letterArrows = a.letterArrows.map (·.shifted 1) := by
  simp only [letterArrows, star, List.filter_append, filter_shifted]
  simp

variable {a l r : Automaton} {word rest : List Char}

theorem spelling_single {c : Char} (h : Symbol.isLiteral c = true) :
    Spelling (single c).letterArrows ([c].filter Symbol.isLetter) := by
  by_cases hc : c = epsilon
  · subst hc
    exact .nil
  · have hletter : Symbol.isLetter c = true := by
      simpa [Symbol.isLiteral, hc] using h
    have harrows : (single c).letterArrows = [⟨0, c, 1⟩] :=
      List.filter_cons_of_pos (by simpa using hc)
    rw [harrows, List.filter_cons_of_pos hletter]
    refine ⟨rfl, fun arrow harrow => ?_, List.pairwise_singleton _ _⟩
    rw [List.mem_singleton.mp harrow]
    rfl

theorem Compact.letter_bounds (ha : Compact a) (h : Spelling a.letterArrows word) :
    ∀ arrow ∈ a.letterArrows, 0 ≤ arrow.source ∧ arrow.source < a.size - 1 := by
  intro arrow harrow
  have hmem := (List.mem_filter.mp harrow).1
  have hsource := ha.source_mem arrow hmem
  have htarget := ha.target_mem arrow hmem
  have hnext := h.target_eq arrow harrow
  omega

theorem spelling_append (hl : Compact l) (hr : Compact r) (h : Spelling l.letterArrows word)
    (hrest : Spelling r.letterArrows rest) :
    Spelling (l.append r).letterArrows (word ++ rest) := by
  rw [letterArrows_append, hl.getLastD_states]
  refine h.append (hrest.shifted _) fun first hfirst second hsecond => ?_
  obtain ⟨b, hb, rfl⟩ := List.mem_map.mp hsecond
  have hfirst := hl.letter_bounds h first hfirst
  have hb := hr.letter_bounds hrest b hb
  simp only [Arrow.shifted]
  omega

theorem spelling_alternate (hl : Compact l) (hr : Compact r) (h : Spelling l.letterArrows word)
    (hrest : Spelling r.letterArrows rest) :
    Spelling (l.alternate r).letterArrows (word ++ rest) := by
  rw [letterArrows_alternate]
  refine (h.shifted 1).append (hrest.shifted _) fun first hfirst second hsecond => ?_
  obtain ⟨b, hb, rfl⟩ := List.mem_map.mp hfirst
  obtain ⟨b', hb', rfl⟩ := List.mem_map.mp hsecond
  have hb := hl.letter_bounds h b hb
  have hb' := hr.letter_bounds hrest b' hb'
  simp only [Arrow.shifted]
  omega

theorem spelling_star (h : Spelling a.letterArrows word) : Spelling a.star.letterArrows word := by
  rw [letterArrows_star]
  exact h.shifted 1

end Automaton

open Automaton (letterArrows)

/-- The automaton along a phrase spells the letters of the phrase. -/
theorem Phrase.spelling_automaton {rank : Rank} (p : Phrase rank) :
    Spelling p.automaton.letterArrows (p.text.filter Symbol.isLetter) := by
  induction p with
  | literal c h => exact Automaton.spelling_single h
  | group inner ih =>
    rw [text, List.cons_append, List.filter_cons_of_neg (by decide), List.filter_append]
    show Spelling inner.automaton.letterArrows (_ ++ [])
    rw [List.append_nil]
    exact ih
  | plain atom ih => exact ih
  | starred factor ih =>
    rw [text, List.filter_append]
    show Spelling factor.automaton.star.letterArrows (_ ++ [])
    rw [List.append_nil]
    exact Automaton.spelling_star ih
  | alone factor ih => exact ih
  | followed term factor ih ih' =>
    rw [text, List.filter_append]
    exact Automaton.spelling_append term.isFragment_automaton.toCompact
      factor.isFragment_automaton.toCompact ih ih'
  | only term ih => exact ih
  | either term others ih ih' =>
    rw [text, List.filter_append, List.filter_cons_of_neg (by decide)]
    exact Automaton.spelling_alternate term.isFragment_automaton.toCompact
      others.isFragment_automaton.toCompact ih ih'

/-- **No letter is lost, doubled or moved.** The arrows of a built automaton that read a letter
are, in their order, one for each letter of the text, in the order of the text; each leads from a
state to the next one, and the states ascend. -/
theorem build_letters (w : String) (a : Automaton) (h : build w = .ok a) :
    ∃ sources : List Int, sources.length = (w.toList.filter Symbol.isLetter).length ∧
      sources.Pairwise (· < ·) ∧
      a.arrows.filter (·.symbol ≠ epsilon)
        = (sources.zip (w.toList.filter Symbol.isLetter)).map fun (s, c) => ⟨s, c, s + 1⟩ := by
  obtain ⟨p, k, htext, rfl⟩ := exists_text_of_build h
  have hspelling := p.spelling_automaton
  -- the parentheses that are missing are no letters
  have hclosings : (List.replicate k ')').filter Symbol.isLetter = [] :=
    List.filter_replicate_of_neg (by decide)
  rw [htext, List.filter_append, hclosings, List.append_nil] at hspelling
  refine ⟨p.automaton.letterArrows.map Arrow.source, ?_, ?_, ?_⟩
  · rw [← hspelling.symbols_eq, List.length_map, List.length_map]
  · rw [List.pairwise_map]
    exact hspelling.ascending
  · show p.automaton.letterArrows = _
    exact hspelling.eq_map_zip

/-- Letters on both sides of a bar, one of them twice, and a group left open: `b(a|E)*(cb`. -/
theorem build_letters_open_group :
    ∃ (a : Automaton) (sources : List Int), build "b(a|E)*(cb" = .ok a ∧ sources.length = 4 ∧
      sources.Pairwise (· < ·) ∧
      a.arrows.filter (·.symbol ≠ epsilon)
        = (sources.zip ['b', 'a', 'c', 'b']).map fun (s, c) => ⟨s, c, s + 1⟩ := by
  let literal (c : Char) (h : Symbol.isLiteral c = true) : Phrase .factor := .plain (.literal c h)
  let choice : Phrase .regex :=
    .either (.alone (literal 'a' rfl)) (.only (.alone (literal 'E' rfl)))
  let tree : Phrase .regex := .only (.followed
    (.followed (.alone (literal 'b' rfl)) (.starred (.plain (.group choice))))
    (.plain (.group (.only (.followed (.alone (literal 'c' rfl)) (literal 'b' rfl))))))
  have hbuild : build "b(a|E)*(cb" = .ok tree.automaton := build_of_text (k := 1) rfl
  obtain ⟨sources, hlength, hascending, harrows⟩ := build_letters _ _ hbuild
  exact ⟨_, sources, hbuild, hlength, hascending, harrows⟩

end RegexAutomata
