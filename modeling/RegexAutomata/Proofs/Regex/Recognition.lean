import RegexAutomata.Proofs.Regex.Reading

/-!
# Which texts are built, and into what

The grammar and the machine agree. A text is built iff closing the groups that it leaves open
makes a regex of it, and what is built is the automaton along the tree of that regex
(`build_of_text`, `exists_text_of_build`).

`build_text` says so for the regexes of the grammar: the two stacks make exactly the automaton
that recursion over the tree makes, with equal states, arrows in equal order and equal accepting
state. `build_iff_isRegex` says which texts are built at all, and that writing the missing
parentheses out changes nothing: the parenthesis that closes a group and the drain that drops
its mark come to the same automaton.
-/

namespace RegexAutomata

/-- A text that is a regex but for groups left open builds the automaton of the regex. -/
theorem build_of_text {w : String} {p : Phrase .regex} {k : Nat}
    (h : p.text = w.toList ++ List.replicate k ')') : build w = .ok p.automaton := by
  obtain ⟨d, hread, -, hwhole⟩ := Draft.exists_draft_of_text h
  exact build_eq_ok_iff.mpr ⟨d, p, hread, hwhole, rfl⟩

/-- What is built is the automaton of a regex: of the text and a closing parenthesis for each
group it leaves open. -/
theorem exists_text_of_build {w : String} {a : Automaton} (h : build w = .ok a) :
    ∃ (p : Phrase .regex) (k : Nat), p.text = w.toList ++ List.replicate k ')' ∧
      p.automaton = a := by
  obtain ⟨d, p, hread, hwhole, ha⟩ := build_eq_ok_iff.mp h
  exact ⟨p, d.outer.length, Draft.text_of_draft hread hwhole, ha⟩

/-- The parentheses that are missing are as many as there are more opening than closing ones. -/
theorem count_of_text {w : List Char} {p : Phrase .regex} {k : Nat}
    (h : p.text = w ++ List.replicate k ')') : w.count '(' = w.count ')' + k := by
  obtain ⟨d, hread, rfl, -⟩ := Draft.exists_draft_of_text h
  have hcount := Draft.length_outer_read hread
  have hstart : Draft.start.outer.length = 0 := rfl
  omega

/-- **The stacks follow the tree.** The text of a regex builds the automaton that is made by
recursion over its tree, and it has no other tree. -/
theorem build_text (p : Phrase .regex) :
    build (String.ofList p.text) = .ok p.automaton ∧
      ∀ q : Phrase .regex, q.text = p.text → q = p := by
  refine ⟨build_of_text (k := 0) ?_, fun q h => Phrase.text_injective h⟩
  rw [String.toList_ofList, List.replicate_zero, List.append_nil]

/-- **The texts that are built.** An automaton is built from a text iff the text, with some
number of closing parentheses behind it, is a regex of the grammar. That number is the number
of groups left open, and any of these parentheses may be written without changing what is
built. -/
theorem build_iff_isRegex (w : String) :
    ((∃ a, build w = .ok a) ↔ ∃ k, IsRegex (w.toList ++ List.replicate k ')')) ∧
      ∀ k, IsRegex (w.toList ++ List.replicate k ')') →
        w.toList.count '(' = w.toList.count ')' + k ∧
          ∀ j ≤ k, build (w ++ String.ofList (List.replicate j ')') : String) = build w := by
  refine ⟨⟨?_, ?_⟩, ?_⟩
  · intro hbuilt
    obtain ⟨a, h⟩ := hbuilt
    obtain ⟨p, k, htext, -⟩ := exists_text_of_build h
    exact ⟨k, p, htext⟩
  · intro hregex
    obtain ⟨k, p, htext⟩ := hregex
    exact ⟨p.automaton, build_of_text htext⟩
  · intro k hregex
    obtain ⟨p, htext⟩ := hregex
    refine ⟨count_of_text htext, fun j hj => ?_⟩
    have hwritten : p.text = (w ++ String.ofList (List.replicate j ')')).toList
        ++ List.replicate (k - j) ')' := by
      rw [htext, String.toList_append, String.toList_ofList, List.append_assoc,
        List.replicate_append_replicate, Nat.add_sub_cancel' hj]
    rw [build_of_text hwritten, build_of_text htext]

end RegexAutomata
