import Mathlib.Data.List.Basic
import RegexAutomata.Proofs.Text.Delimiting
import RegexAutomata.Shell.Session

/-!
# The list shows all arrows

The triple of an arrow can be cut off from whatever stands behind it, even if the symbol is a
comma, a parenthesis or a line feed: the source ends at the first comma, the symbol is the one
character at its place, and the target ends at the parenthesis. So the list of the triples can be
read back from the front, and a line feed that is a symbol is never taken for the end of a line.

Main result: `render_list_eq_iff`.
-/

namespace RegexAutomata

open Text

/-- The triple, character by character. -/
theorem Arrow.toList_text (arrow : Arrow) :
    arrow.text.toList = '(' :: ((toString arrow.source).toList ++ ',' :: ' ' :: arrow.symbol
      :: ',' :: ' ' :: ((toString arrow.target).toList ++ [')'])) := by
  unfold Arrow.text
  simp only [String.toList_append, String.toList_singleton, List.append_assoc]
  rfl

/-- A line feed and a triple, for any symbol. -/
theorem Arrow.selfDelimiting_line :
    SelfDelimiting (fun _ => True) fun arrow : Arrow => '\n' :: arrow.text.toList := by
  rintro ⟨source, symbol, target⟩ - ⟨source', symbol', target'⟩ - r s h
  simp only [Arrow.toList_text, List.cons_append, List.append_assoc, List.nil_append] at h
  obtain ⟨rfl, hsymbol⟩ := numeral_stop_inj ',' rfl (List.cons.inj (List.cons.inj h).2).2
  obtain ⟨rfl, htarget⟩ := List.cons.inj (List.cons.inj hsymbol).2
  obtain ⟨rfl, hend⟩ :=
    numeral_stop_inj ')' rfl (List.cons.inj (List.cons.inj htarget).2).2
  exact ⟨rfl, hend⟩

namespace Automaton

/-- With one more line feed in front, the list is a run of lines. -/
theorem toList_listing {a : Automaton} (h : a.arrows ≠ []) :
    '\n' :: a.listing.toList = a.arrows.flatMap fun arrow => '\n' :: arrow.text.toList := by
  unfold listing arrowLines
  rw [String.toList_intercalate, List.map_map]
  show ['\n'] ++ List.intercalate ['\n'] _ = _
  rw [append_intercalate _ (mt List.map_eq_nil_iff.mp h), List.flatMap_map]
  rfl

/-- Only without arrows is the list the empty text. -/
theorem listing_eq_empty_iff {a : Automaton} : a.listing = "" ↔ a.arrows = [] := by
  constructor
  · intro h
    by_contra harrows
    have hlines := toList_listing harrows
    obtain ⟨arrow, arrows, hcons⟩ := List.exists_cons_of_ne_nil harrows
    rw [h, hcons, List.flatMap_cons, Arrow.toList_text, String.toList_empty] at hlines
    exact absurd (List.cons.inj hlines).2 (List.cons_ne_nil _ _).symm
  · intro h
    unfold listing arrowLines
    rw [h]
    rfl

/-- **The list loses nothing.** Two automata are printed as the same list exactly if they have
the same arrows in the same order, whatever numbers and symbols these have. -/
theorem render_list_eq_iff (m n : Automaton) :
    m.render .list = n.render .list ↔ m.arrows = n.arrows := by
  show m.listing = n.listing ↔ m.arrows = n.arrows
  constructor
  · intro h
    by_cases hm : m.arrows = []
    · rw [hm, listing_eq_empty_iff.mp (h ▸ listing_eq_empty_iff.mpr hm)]
    have hn : n.arrows ≠ [] := fun hn =>
      hm (listing_eq_empty_iff.mp (h ▸ listing_eq_empty_iff.mpr hn))
    have hlines : (m.arrows.flatMap fun arrow => '\n' :: arrow.text.toList) ++ []
        = (n.arrows.flatMap fun arrow => '\n' :: arrow.text.toList) ++ [] := by
      rw [← toList_listing hm, ← toList_listing hn, h]
    exact (Arrow.selfDelimiting_line.flatMap_inj ['\n'] (fun _ _ => ⟨_, rfl⟩)
      (fun _ _ => trivial) (fun _ _ => trivial) (by decide) (by decide) hlines).1
  · intro h
    unfold listing arrowLines
    rw [h]

end Automaton

end RegexAutomata
