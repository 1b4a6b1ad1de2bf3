import RegexAutomata.Automaton.Observer
import RegexAutomata.Automaton.Walk
import RegexAutomata.Proofs.Automaton.Exploration

/-!
# What an observer accepts

An observer reads with sets of states, a walk goes from state to state. Here the two are the
same: a text is accepted iff some walk along the noted arrows, from the start to the live
accepting state, reads it.

`Spells arrows s word t` says that some walk from `s` to `t` reads `word`. The set of states
that `readsFrom` carries along is always closed under walks that read nothing, and that is the
invariant of the induction (`readsFrom_iff`): with a closed set, the first letter of a word is
read by an arrow that starts in the set itself. The early end on an empty set of states changes
no answer, because no walk can start in it.

Main result: `Observer.accepts_iff`.
-/

namespace RegexAutomata

/-- Some walk along the arrows leads from `s` to `t` and reads the word. -/
def Spells (arrows : List Arrow) (s : Int) (word : List Char) (t : Int) : Prop :=
  ∃ symbols, Walk arrows s symbols t ∧ wordOf symbols = word

theorem wordOf_cons_epsilon (symbols : List Char) :
    wordOf (epsilon :: symbols) = wordOf symbols :=
  List.filter_cons_of_neg (by simp)

theorem wordOf_cons_letter {c : Char} (hc : c ≠ epsilon) (symbols : List Char) :
    wordOf (c :: symbols) = c :: wordOf symbols :=
  List.filter_cons_of_pos (by simpa using hc)

theorem wordOf_concat_epsilon (symbols : List Char) :
    wordOf (symbols ++ [epsilon]) = wordOf symbols := by
  rw [wordOf_append]
  exact List.append_nil _

theorem epsilon_notMem_wordOf (symbols : List Char) : epsilon ∉ wordOf symbols := by
  intro h
  have hne := (List.mem_filter.mp h).2
  simp at hne

namespace Spells

variable {arrows : List Arrow} {s t u : Int} {c : Char} {front back word : List Char}

theorem refl (arrows : List Arrow) (s : Int) : Spells arrows s [] s :=
  ⟨[], .stay s, rfl⟩

theorem trans (first : Spells arrows s front u) (second : Spells arrows u back t) :
    Spells arrows s (front ++ back) t := by
  obtain ⟨symbols, walk, rfl⟩ := first
  obtain ⟨more, walk', rfl⟩ := second
  exact ⟨symbols ++ more, walk.trans walk', wordOf_append symbols more⟩

theorem silent (h : ⟨s, epsilon, u⟩ ∈ arrows) (rest : Spells arrows u word t) :
    Spells arrows s word t := by
  obtain ⟨symbols, walk, rfl⟩ := rest
  exact ⟨epsilon :: symbols, .step h walk, wordOf_cons_epsilon symbols⟩

theorem silent_behind (first : Spells arrows s word u) (h : ⟨u, epsilon, t⟩ ∈ arrows) :
    Spells arrows s word t := by
  obtain ⟨symbols, walk, rfl⟩ := first
  exact ⟨symbols ++ [epsilon], walk.trans (.single h), wordOf_concat_epsilon symbols⟩

theorem letter (h : ⟨s, c, u⟩ ∈ arrows) (hc : c ≠ epsilon) (rest : Spells arrows u word t) :
    Spells arrows s (c :: word) t := by
  obtain ⟨symbols, walk, rfl⟩ := rest
  exact ⟨c :: symbols, .step h walk, wordOf_cons_letter hc symbols⟩

/-- A word that begins with a letter is read in three parts: a walk that reads nothing, an
arrow for the letter, and a walk for the rest. -/
theorem of_cons (h : Spells arrows s (c :: word) t) :
    c ≠ epsilon ∧ ∃ u v, Spells arrows s [] u ∧ ⟨u, c, v⟩ ∈ arrows ∧ Spells arrows v word t := by
  obtain ⟨symbols, walk, hword⟩ := h
  induction walk with
  | stay _ => exact absurd hword (by simp [wordOf])
  | @step s v t d symbols hmem rest ih =>
    by_cases hd : d = epsilon
    · -- still in front of the letter: the arrow joins the silent part
      subst hd
      rw [wordOf_cons_epsilon] at hword
      obtain ⟨hc, u, w, hsilent, harrow, hrest⟩ := ih hword
      exact ⟨hc, u, w, hsilent.silent hmem, harrow, hrest⟩
    · -- the letter itself, and the silent part is over
      rw [wordOf_cons_letter hd, List.cons.injEq] at hword
      obtain ⟨rfl, hword⟩ := hword
      exact ⟨hd, s, v, refl arrows s, hmem, symbols, rest, hword⟩

end Spells

theorem Automaton.reads_iff_spells (a : Automaton) (word : List Char) :
    a.Reads word ↔ Spells a.arrows startState word a.accept :=
  Iff.rfl

namespace Observer

theorem linked_silentEdges (o : Observer) (s t : Int) :
    Linked o.silentEdges s t ↔ ⟨s, epsilon, t⟩ ∈ o.noted := by
  unfold Linked silentEdges
  constructor
  · intro h
    obtain ⟨⟨s', c, t'⟩, hmem, heq⟩ := List.mem_map.mp h
    obtain ⟨hnoted, hsilent⟩ := List.mem_filter.mp hmem
    obtain ⟨rfl, rfl⟩ := Prod.mk.inj heq
    have hc : c = epsilon := of_decide_eq_true hsilent
    rw [← hc]
    exact hnoted
  · intro h
    exact List.mem_map.mpr
      ⟨⟨s, epsilon, t⟩, List.mem_filter.mpr ⟨h, decide_eq_true rfl⟩, rfl⟩

/-- A chain of silent edges is a walk that reads nothing. -/
theorem silentPath_iff (o : Observer) (s t : Int) :
    Relation.ReflTransGen (Linked o.silentEdges) s t ↔ Spells o.noted s [] t := by
  constructor
  · intro h
    induction h using Relation.ReflTransGen.head_induction_on with
    | refl => exact .refl _ _
    | head hlink _ ih => exact ih.silent ((linked_silentEdges o _ _).mp hlink)
  · intro h
    obtain ⟨symbols, walk, hword⟩ := h
    induction walk with
    | stay _ => exact .refl
    | @step s u t c symbols hmem rest ih =>
      by_cases hc : c = epsilon
      · subst hc
        rw [wordOf_cons_epsilon] at hword
        exact (ih hword).head ((linked_silentEdges o _ _).mpr hmem)
      · rw [wordOf_cons_letter hc] at hword
        exact absurd hword (List.cons_ne_nil _ _)

theorem mem_closure_iff (o : Observer) {states : List Int} {t : Int} :
    t ∈ o.closure states ↔ ∃ s ∈ states, Spells o.noted s [] t := by
  unfold closure
  rw [mem_reach_iff]
  simp only [silentPath_iff]

theorem mem_advance_iff (o : Observer) {states : List Int} {c : Char} {t : Int} :
    t ∈ o.advance states c ↔ c ≠ epsilon ∧ ∃ s ∈ states, ⟨s, c, t⟩ ∈ o.noted := by
  unfold advance
  by_cases hc : c = epsilon
  · rw [if_pos hc]
    exact ⟨fun h => absurd h List.not_mem_nil, fun h => absurd hc h.1⟩
  · rw [if_neg hc, List.mem_flatMap]
    refine ⟨fun ⟨s, hs, ht⟩ => ⟨hc, s, hs, ?_⟩, fun ⟨_, s, hs, ht⟩ => ⟨s, hs, ?_⟩⟩
    · obtain ⟨⟨s', c', t'⟩, hmem, rfl⟩ := List.mem_map.mp ht
      obtain ⟨hnoted, hcond⟩ := List.mem_filter.mp hmem
      obtain ⟨rfl, rfl⟩ := of_decide_eq_true hcond
      exact hnoted
    · exact List.mem_map.mpr
        ⟨⟨s, c, t⟩, List.mem_filter.mpr ⟨ht, decide_eq_true ⟨rfl, rfl⟩⟩, rfl⟩

/-- A set of states out of which no walk leads that reads nothing. -/
def Closed (o : Observer) (states : List Int) : Prop :=
  ∀ s ∈ states, ∀ t, Spells o.noted s [] t → t ∈ states

theorem closed_closure (o : Observer) (states : List Int) : o.Closed (o.closure states) := by
  intro s hs t hst
  obtain ⟨r, hr, hrs⟩ := o.mem_closure_iff.mp hs
  exact o.mem_closure_iff.mpr ⟨r, hr, hrs.trans hst⟩

/-- One round of reading: behind the letter `c`, a word is read from the next set of states iff
`c` and the word are read from this set, if this set is closed. -/
theorem spells_cons_iff (o : Observer) {states : List Int} (hclosed : o.Closed states)
    (c : Char) (word : List Char) (t : Int) :
    (∃ v ∈ o.closure (o.advance states c), Spells o.noted v word t) ↔
      ∃ s ∈ states, Spells o.noted s (c :: word) t := by
  constructor
  · intro h
    obtain ⟨v, hv, hrest⟩ := h
    obtain ⟨u, hu, huv⟩ := o.mem_closure_iff.mp hv
    obtain ⟨hc, s, hs, harrow⟩ := o.mem_advance_iff.mp hu
    exact ⟨s, hs, (huv.trans hrest).letter harrow hc⟩
  · intro h
    obtain ⟨s, hs, hspells⟩ := h
    obtain ⟨hc, u, v, hsilent, harrow, hrest⟩ := hspells.of_cons
    -- the silent part does not leave the set, so the letter is read from the set itself
    have hv : v ∈ o.advance states c :=
      o.mem_advance_iff.mpr ⟨hc, u, hclosed s hs u hsilent, harrow⟩
    exact ⟨v, o.mem_closure_iff.mpr ⟨v, hv, .refl _ _⟩, hrest⟩

/-- From a closed set of states exactly those words are read that a walk from one of them to
the live accepting state spells. -/
theorem readsFrom_iff (o : Observer) (word : List Char) :
    ∀ states : List Int, o.Closed states →
      (o.readsFrom states word = true ↔
        ∃ s ∈ states, Spells o.noted s word o.live.accept) := by
  -- the set changes with each letter; that it is closed is what is carried along
  induction word with
  | nil =>
    intro states hclosed
    rw [readsFrom, decide_eq_true_eq]
    exact ⟨fun h => ⟨_, h, .refl _ _⟩, fun ⟨s, hs, hspells⟩ => hclosed s hs _ hspells⟩
  | cons c word ih =>
    intro states hclosed
    rw [readsFrom, ← o.spells_cons_iff hclosed]
    by_cases hempty : (o.closure (o.advance states c)).isEmpty = true
    · -- no state is left: nothing is read, and no walk can go on
      rw [if_pos hempty, List.isEmpty_iff.mp hempty]
      simp
    · rw [if_neg hempty]
      exact ih _ (o.closed_closure _)

/-- **Acceptance is walking.** An observer accepts a text iff the live automaton has states and
a walk along the noted arrows, from the start to the live accepting state, reads the text. -/
theorem accepts_iff (o : Observer) (text : String) :
    o.accepts text = true ↔
      o.live.isEmpty = false ∧ Spells o.noted startState text.toList o.live.accept := by
  unfold accepts
  rw [Bool.and_eq_true, Bool.not_eq_true', readsFrom_iff o _ _ (o.closed_closure _)]
  refine and_congr_right fun _ => ⟨fun ⟨s, hs, hspells⟩ => ?_, fun h => ?_⟩
  · obtain ⟨r, hr, hrs⟩ := o.mem_closure_iff.mp hs
    rw [List.mem_singleton] at hr
    subst hr
    exact hrs.trans hspells
  · exact ⟨startState, o.mem_closure_iff.mpr ⟨_, List.mem_singleton_self _, .refl _ _⟩, h⟩

/-! ## Reading to the end -/

/-- The states that reading the whole word leads to, with nothing cut short. -/
def statesAfter (o : Observer) (states : List Int) (word : List Char) : List Int :=
  word.foldl (fun states c => o.closure (o.advance states c)) states

theorem closure_nil (o : Observer) : o.closure [] = [] := by
  refine List.eq_nil_iff_forall_not_mem.mpr fun t ht => ?_
  obtain ⟨s, hs, -⟩ := o.mem_closure_iff.mp ht
  exact List.not_mem_nil hs

theorem advance_nil (o : Observer) (c : Char) : o.advance [] c = [] :=
  ite_self []

theorem statesAfter_nil (o : Observer) (word : List Char) : o.statesAfter [] word = [] := by
  induction word with
  | nil => rfl
  | cons c word ih =>
    rw [statesAfter, List.foldl_cons, o.advance_nil, o.closure_nil]
    exact ih

/-- The early end changes no verdict: once no state is left, none comes back. -/
theorem readsFrom_eq (o : Observer) (word : List Char) :
    ∀ states : List Int,
      o.readsFrom states word = decide (o.live.accept ∈ o.statesAfter states word) := by
  induction word with
  | nil => exact fun _ => rfl
  | cons c word ih =>
    intro states
    rw [readsFrom, statesAfter, List.foldl_cons]
    by_cases hempty : (o.closure (o.advance states c)).isEmpty = true
    · have hnone := o.statesAfter_nil word
      rw [statesAfter] at hnone
      rw [if_pos hempty, List.isEmpty_iff.mp hempty, hnone]
      simp
    · rw [if_neg hempty]
      exact ih _

end Observer

/-- A fresh observer of an automaton with states accepts what the automaton reads. -/
theorem Automaton.accepts_observer_iff (a : Automaton) (h : a.states ≠ []) (text : String) :
    a.observer.accepts text = true ↔ a.Reads text.toList := by
  rw [Observer.accepts_iff, Automaton.reads_iff_spells]
  exact and_iff_right (isEmpty_eq_false h)

/-- **Running an automaton decides which words its walks spell.** Nothing is assumed about the
automaton: states may repeat or be missing from the list, arrows may form silent cycles or lead
anywhere. The verdict is the one of the run that is never cut short. -/
theorem Automaton.accepts_iff_walk (a : Automaton) (text : String) :
    (a.observer.accepts text = true ↔
      a.states ≠ [] ∧
        (∃ symbols, Walk a.arrows startState symbols a.accept ∧
          wordOf symbols = text.toList) ∧
        epsilon ∉ text.toList) ∧
      a.observer.accepts text = (!a.isEmpty &&
        decide (a.accept ∈ a.observer.statesAfter (a.observer.closure [startState])
          text.toList)) := by
  refine ⟨?_, ?_⟩
  · by_cases hstates : a.states = []
    · have hempty : a.observer.live.isEmpty = true := List.isEmpty_iff.mpr hstates
      rw [Observer.accepts_iff, hempty]
      simp [hstates]
    · rw [a.accepts_observer_iff hstates]
      refine ⟨fun h => ⟨hstates, h, ?_⟩, fun h => h.2.1⟩
      -- the sign of the empty word stands in no word that a walk spells
      obtain ⟨symbols, -, hword⟩ := h
      rw [← hword]
      exact epsilon_notMem_wordOf symbols
  · rw [← show a.observer.live.accept = a.accept from rfl, ← Observer.readsFrom_eq]
    rfl

end RegexAutomata
