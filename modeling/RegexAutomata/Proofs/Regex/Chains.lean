import RegexAutomata.Proofs.Regex.Balance
import RegexAutomata.Proofs.Regex.Built
import RegexAutomata.Proofs.Regex.Driving

/-!
# Chains of concatenations

There are two ways for a run of concatenation marks to go. On top of the stack it goes mark by
mark, so that the operands are joined from the right, two at a time. Below an alternation it
goes at once, and the operands are joined from the left. Both make the same automaton, because
appending is associative on the nose; what it takes is that every automaton in the middle has a
state besides its start, which all built automata have.

`prependAll` is what the single reductions make of a chain (`drive_concatenations`), and
`appendAll?_concat_eq` says that it is what joining from the left makes.

Main result: `reduce_run_pairwise`.
-/

namespace RegexAutomata

namespace Automaton

/-- The automata one by one in front of the last, the first of them next to it. -/
def prependAll (chain : List Automaton) (last : Automaton) : Automaton :=
  chain.foldl (fun right left => left.append right) last

theorem size_le_append (l r : Automaton) : l.size ≤ (l.append r).size := by
  show l.states.length ≤ (l.states ++ r.states.tail.map _).length
  rw [List.length_append]
  exact Nat.le_add_right _ _

theorem two_le_size_prependAll {chain : List Automaton} (hchain : ∀ a ∈ chain, 2 ≤ a.size) :
    ∀ last : Automaton, 2 ≤ last.size → 2 ≤ (prependAll chain last).size := by
  induction chain with
  | nil => exact fun _ hlast => hlast
  | cons left chain ih =>
    intro last _
    rw [List.forall_mem_cons] at hchain
    exact ih hchain.2 (left.append last) (Nat.le_trans hchain.1 (size_le_append left last))

/-- What stands behind the last automaton of a chain can wait until the chain is joined. -/
theorem prependAll_append {chain : List Automaton} (hchain : ∀ a ∈ chain, 2 ≤ a.size)
    (last : Automaton) :
    ∀ middle : Automaton, 2 ≤ middle.size →
      prependAll chain (middle.append last) = (prependAll chain middle).append last := by
  induction chain with
  | nil => exact fun _ _ => rfl
  | cons left chain ih =>
    intro middle hmiddle
    rw [List.forall_mem_cons] at hchain
    have hleft : 2 ≤ (left.append middle).size :=
      Nat.le_trans hchain.1 (size_le_append left middle)
    calc prependAll (left :: chain) (middle.append last)
        = prependAll chain (left.append (middle.append last)) := rfl
      _ = prependAll chain ((left.append middle).append last) := by rw [append_assoc last hmiddle]
      _ = (prependAll chain (left.append middle)).append last := ih hchain.2 _ hleft

/-- **From the left or from the right.** A chain joined from the left is the chain put in front
of its last automaton one by one. -/
theorem appendAll?_concat_eq {chain : List Automaton} (hchain : ∀ a ∈ chain, 2 ≤ a.size) :
    ∀ last : Automaton, appendAll? (chain.reverse ++ [last]) = .ok (prependAll chain last) := by
  induction chain with
  | nil => exact fun _ => rfl
  | cons middle chain ih =>
    intro last
    rw [List.forall_mem_cons] at hchain
    have hjoined := two_le_size_prependAll hchain.2 middle hchain.1
    rw [List.reverse_cons, appendAll?_concat (by simp), ih hchain.2 middle]
    show (prependAll chain middle).append? last = .ok (prependAll chain (middle.append last))
    rw [prependAll_append hchain.2 last middle hchain.1]
    exact append?_eq_ok (states_ne_nil_of_two_le hjoined) _

end Automaton

open Automaton (prependAll)

namespace Machine

/-- A run of concatenation marks on top, reduced mark by mark. -/
theorem drive_concatenations (m : Machine) (below : List Mark) (rest : List Automaton)
    (position : Int) {chain : List Automaton} (hchain : ∀ a ∈ chain, a.states ≠ []) :
    ∀ last : Automaton,
      (drive { m with
          marks := List.replicate chain.length .concatenation ++ below
          operands := last :: (chain ++ rest) }
        (List.replicate chain.length (.reduce position))).2
        = .ok { m with marks := below, operands := prependAll chain last :: rest } := by
  induction chain with
  | nil => exact fun _ => rfl
  | cons left chain ih =>
    intro last
    rw [List.forall_mem_cons] at hchain
    rw [List.length_cons, List.replicate_succ, List.replicate_succ, drive_cons, perform,
      reduce_of_reduced (.concatenation rfl rfl hchain.1) position]
    exact ih hchain.2 (left.append last)

end Machine

theorem two_le_size_of_build {regex : Option String} {a : Automaton} (h : build regex = .ok a) :
    2 ≤ a.size :=
  (constructed_of_build h).isFragment.two_le_size

/-- **A run at once or mark by mark.** Let the marks end in an alternation above `k`
concatenations, and the `k + 2` operands on top be built from texts. Then reducing the
alternation comes to the same state as setting it and the top operand aside, reducing the `k`
concatenations one by one, putting both back and reducing the alternation with no concatenation
below it. The reason is that appending is associative, whatever the automata, if the left one
has states and the middle one has two. -/
theorem reduce_run_pairwise :
    (∀ (m : Machine) (k : Nat) (below : List Mark) (position : Int),
      m.marks = .alternation :: (List.replicate k .concatenation ++ below) →
      below.head? ≠ some .concatenation → k + 2 ≤ m.operands.length →
      (∀ a ∈ m.operands.take (k + 2), ∃ regex, build regex = .ok a) →
      ∃ top others joined after, m.operands = top :: others ∧
        (Machine.drive { m with
            marks := List.replicate k .concatenation ++ below
            operands := others }
          (List.replicate k (.reduce position))).2 = .ok joined ∧
        joined.marks = below ∧
        Machine.reduce { joined with
            marks := .alternation :: joined.marks
            operands := top :: joined.operands } position = .ok after ∧
        m.reduce position = .ok after) ∧
    ∀ a b c : Automaton, a.states ≠ [] → 2 ≤ b.size →
      ∃ front back whole, a.append? b = .ok front ∧ front.append? c = .ok whole ∧
        b.append? c = .ok back ∧ a.append? back = .ok whole := by
  constructor
  · intro m k below position hmarks hbelow hlength hbuilt
    -- the operands: the one set aside, the chain with its last automaton on top, and the rest
    obtain ⟨top, last, chain, rest, hoperands, rfl⟩ : ∃ top last chain rest,
        m.operands = top :: last :: (chain ++ rest) ∧ chain.length = k := by
      match m.operands, hlength with
      | top :: last :: others, hlength =>
        simp only [List.length_cons] at hlength
        exact ⟨top, last, others.take k, others.drop k, by rw [List.take_append_drop],
          List.length_take_of_le (by omega)⟩
    rw [hoperands, List.take_succ_cons, List.take_succ_cons, List.take_left,
      List.forall_mem_cons, List.forall_mem_cons] at hbuilt
    have hchain : ∀ a ∈ chain, 2 ≤ a.size := by
      intro a ha
      obtain ⟨w, hw⟩ := hbuilt.2.2 a ha
      exact two_le_size_of_build hw
    have hlisted : ∀ a ∈ chain, a.states ≠ [] :=
      fun a ha => Automaton.states_ne_nil_of_two_le (hchain a ha)
    have hleft : Automaton.appendAll? (last :: chain).reverse = .ok (prependAll chain last) := by
      rw [List.reverse_cons]
      exact Automaton.appendAll?_concat_eq hchain last
    refine ⟨top, last :: (chain ++ rest), _, _, hoperands,
      Machine.drive_concatenations m below rest position hlisted last, rfl, ?_,
      Machine.reduce_of_reduced (.alternation hmarks hbelow hoperands rfl hleft) position⟩
    have hone : top :: prependAll chain last :: rest
        = top :: ([prependAll chain last] ++ rest) := rfl
    exact Machine.reduce_of_reduced (.alternation (n := 0) rfl hbelow hone rfl rfl) position
  · intro a b c ha hb
    refine ⟨a.append b, b.append c, (a.append b).append c, Automaton.append?_eq_ok ha b,
      Automaton.append?_eq_ok (Automaton.states_append_ne_nil ha b) c,
      Automaton.append?_eq_ok (Automaton.states_ne_nil_of_two_le hb) c, ?_⟩
    rw [Automaton.append_assoc c hb]
    exact Automaton.append?_eq_ok ha _

/-- Three factors in an open group, to the left of a bar: `(ab*(c|E)|d`. -/
theorem reduce_run_pairwise_open_group :
    ∃ a b c d : Automaton, build "a" = .ok a ∧ build "b*" = .ok b ∧ build "c|E" = .ok c ∧
      build "d" = .ok d ∧ ∃ joined after,
        (Machine.drive ⟨"", [.concatenation, .concatenation, .group], [c, b, a], true, 1⟩
          [.reduce 0, .reduce 0]).2 = .ok joined ∧
        joined.marks = [.group] ∧
        Machine.reduce { joined with
            marks := .alternation :: joined.marks
            operands := d :: joined.operands } 0 = .ok after ∧
        Machine.reduce
          ⟨"", [.alternation, .concatenation, .concatenation, .group], [d, c, b, a], true, 1⟩ 0
            = .ok after := by
  let letter (c : Char) (h : Symbol.isLiteral c = true) : Phrase .term :=
    .alone (.plain (.literal c h))
  have ha : build "a" = .ok _ := build_of_text (k := 0) (p := .only (letter 'a' rfl)) rfl
  have hb : build "b*" = .ok _ := build_of_text (k := 0) (p := .only (letter 'b' rfl).starLast) rfl
  have hc : build "c|E" = .ok _ :=
    build_of_text (k := 0) (p := .either (letter 'c' rfl) (.only (letter 'E' rfl))) rfl
  have hd : build "d" = .ok _ := build_of_text (k := 0) (p := .only (letter 'd' rfl)) rfl
  refine ⟨_, _, _, _, ha, hb, hc, hd, ?_⟩
  obtain ⟨top, others, joined, after, hoperands, hdrive, hmarks, hback, hreduce⟩ :=
    reduce_run_pairwise.1
      ⟨"", [.alternation, .concatenation, .concatenation, .group], [_, _, _, _], true, 1⟩ 2
      [.group] 0 rfl (by decide) (Nat.le_refl 4)
      (List.forall_mem_cons.mpr ⟨⟨_, hd⟩, List.forall_mem_cons.mpr ⟨⟨_, hc⟩,
        List.forall_mem_cons.mpr ⟨⟨_, hb⟩, List.forall_mem_cons.mpr ⟨⟨_, ha⟩, nofun⟩⟩⟩⟩)
  cases hoperands
  exact ⟨joined, after, hdrive, hmarks, hback, hreduce⟩

end RegexAutomata
