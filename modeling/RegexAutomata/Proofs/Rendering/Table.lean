import Mathlib.Data.List.Basic
import RegexAutomata.Automaton.Table
import RegexAutomata.Proofs.Text.Delimiting

/-!
# The table shows all arrows and the accepting state

How wide the columns are depends on all rows at once, but it shows in two places only: in the
blanks around the cells and in the dashes of the rule. Without its blanks (`unpadded`) the table
is a head that is always the same, a rule whose three parts end at a pipe, and the rows, each
with its cells between pipes (`unpadded_table`). A cell has no blanks of its own, since the
symbols are literals, which is all that a table is laid out for. The foot begins like no row, so
rows and foot are told apart, and the rows from each other.

Main result: `of_table_eq`.
-/

namespace RegexAutomata

open Text

/-- The text without its blanks. -/
def unpadded (text : String) : List Char :=
  text.toList.filter (· ≠ ' ')

@[simp] theorem unpadded_append (s t : String) : unpadded (s ++ t) = unpadded s ++ unpadded t := by
  unfold unpadded
  rw [String.toList_append, List.filter_append]

theorem unpadded_of_not_mem {text : String} (h : ' ' ∉ text.toList) :
    unpadded text = text.toList := by
  refine List.filter_eq_self.mpr fun c hc => decide_eq_true fun hblank => h (hblank ▸ hc)

@[simp] theorem unpadded_toString (x : Int) : unpadded (toString x) = (toString x).toList :=
  unpadded_of_not_mem fun h => absurd (isNumeric_of_mem h) (by decide)

/-- To align a text is to add blanks. -/
@[simp] theorem Column.unpadded_align (column : Column) (text : String) :
    unpadded (column.align text) = unpadded text := by
  have hblanks : ∀ k, unpadded (String.ofList (List.replicate k ' ')) = [] := by
    intro k
    unfold unpadded
    rw [String.toList_ofList, List.filter_replicate_of_neg (by decide)]
  unfold Column.align
  split
  · rw [unpadded_append, hblanks, List.append_nil]
  · rw [unpadded_append, hblanks, List.nil_append]

/-- The rule is made of dashes. -/
theorem Column.unpadded_rule (column : Column) :
    unpadded column.rule = List.replicate (column.width + 2) '-' := by
  unfold unpadded Column.rule
  rw [String.toList_ofList, List.filter_replicate_of_pos (by decide)]

/-- Three texts between pipes, without blanks. -/
theorem unpadded_pipeRow (first second third : String) :
    unpadded (pipeRow first second third) = '|' :: (unpadded first
      ++ '|' :: (unpadded second ++ '|' :: (unpadded third ++ ['|']))) := by
  unfold pipeRow
  simp only [unpadded_append, List.append_assoc]
  rfl

/-- Lines, each with its line feed in front, without blanks. -/
theorem unpadded_lines {texts : List String} (h : texts ≠ []) :
    '\n' :: unpadded ("\n".intercalate texts)
      = texts.flatMap fun text => '\n' :: unpadded text := by
  have hlines := congrArg (List.filter (· ≠ ' '))
    (append_intercalate ['\n'] (mt (List.map_eq_nil_iff (f := String.toList)).mp h))
  rw [List.flatMap_map, List.filter_flatMap] at hlines
  unfold unpadded
  rw [String.toList_intercalate]
  exact hlines

/-- A line feed and the row of an arrow, without blanks. -/
def Arrow.row (arrow : Arrow) : List Char :=
  '\n' :: '|' :: ((toString arrow.source).toList
    ++ '|' :: arrow.symbol :: '|' :: ((toString arrow.target).toList ++ ['|']))

theorem Arrow.selfDelimiting_row : SelfDelimiting (fun _ => True) Arrow.row := by
  rintro ⟨source, symbol, target⟩ - ⟨source', symbol', target'⟩ - r s h
  simp only [Arrow.row, List.cons_append, List.append_assoc, List.nil_append] at h
  obtain ⟨rfl, hsymbol⟩ := numeral_stop_inj '|' rfl (List.cons.inj (List.cons.inj h).2).2
  obtain ⟨rfl, htarget⟩ := List.cons.inj hsymbol
  obtain ⟨rfl, hend⟩ := numeral_stop_inj '|' rfl (List.cons.inj htarget).2
  exact ⟨rfl, hend⟩

namespace Automaton

/-- The row of an arrow. -/
theorem unpadded_tableRow (a : Automaton) {arrow : Arrow}
    (h : Symbol.isLiteral arrow.symbol = true) :
    '\n' :: unpadded (a.tableRow arrow) = arrow.row := by
  have hsymbol : unpadded (String.singleton arrow.symbol) = [arrow.symbol] := by
    rw [unpadded_of_not_mem, String.toList_singleton]
    rw [String.toList_singleton]
    exact fun hmem => Symbol.ne_of_isLiteral h rfl (List.mem_singleton.mp hmem).symm
  unfold tableRow Arrow.row
  rw [unpadded_pipeRow, Column.unpadded_align, Column.unpadded_align, Column.unpadded_align,
    unpadded_toString, unpadded_toString, hsymbol]
  rfl

/-- What stands below the rows, without blanks. -/
def foot (a : Automaton) : List Char :=
  if a.isEmpty then [] else "\n起始状态:0接受状态:".toList ++ (toString a.accept).toList

theorem foot_inj {m n : Automaton} (h : m.foot = n.foot) :
    m.isEmpty = n.isEmpty ∧ (m.isEmpty = false → m.accept = n.accept) := by
  unfold foot at h
  cases hm : m.isEmpty <;> cases hn : n.isEmpty <;> rw [hm, hn] at h
  case false.false =>
    exact ⟨rfl, fun _ => numeral_inj (List.append_cancel_left h)⟩
  case true.true => exact ⟨rfl, fun hne => nomatch hne⟩
  case false.true => exact absurd h (List.cons_ne_nil _ _)
  case true.false => exact absurd h.symm (List.cons_ne_nil _ _)

/-- The table of the arrows, without blanks: the widths are left in the rule alone. -/
theorem unpadded_arrowTable {a : Automaton}
    (h : ∀ arrow ∈ a.arrows, Symbol.isLiteral arrow.symbol = true) :
    ∃ i j k, '\n' :: unpadded a.arrowTable = "\n|from|symbol|to|\n|".toList
      ++ (List.replicate i '-' ++ '|' :: (List.replicate j '-'
      ++ '|' :: (List.replicate k '-' ++ '|' :: a.arrows.flatMap Arrow.row))) := by
  have hrows : (a.arrows.map a.tableRow).flatMap (fun text => '\n' :: unpadded text)
      = a.arrows.flatMap Arrow.row := by
    rw [List.flatMap_map]
    exact List.flatMap_congr fun arrow harrow => a.unpadded_tableRow (h arrow harrow)
  have hfrom : a.sourceColumn.title = "from" := rfl
  have hsymbol : a.symbolColumn.title = "symbol" := rfl
  have hto : a.targetColumn.title = "to" := rfl
  refine ⟨a.sourceColumn.width + 2, a.symbolColumn.width + 2, a.targetColumn.width + 2, ?_⟩
  unfold arrowTable tableHead
  rw [unpadded_lines (List.append_ne_nil_of_left_ne_nil (List.cons_ne_nil _ _) _),
    List.flatMap_append, hrows]
  simp only [List.flatMap_cons, List.flatMap_nil, unpadded_pipeRow, unpadded_append,
    Column.unpadded_rule, Column.heading, Column.unpadded_align, List.append_assoc,
    List.cons_append, hfrom, hsymbol, hto]
  rfl

/-- The table without blanks: its rows stand between rule and foot. -/
theorem unpadded_table {a : Automaton}
    (h : ∀ arrow ∈ a.arrows, Symbol.isLiteral arrow.symbol = true) :
    ∃ i j k, '\n' :: unpadded a.table = "\n|from|symbol|to|\n|".toList
      ++ (List.replicate i '-' ++ '|' :: (List.replicate j '-'
      ++ '|' :: (List.replicate k '-' ++ '|' :: (a.arrows.flatMap Arrow.row ++ a.foot)))) := by
  have hfoot : unpadded a.table = unpadded a.arrowTable ++ a.foot := by
    unfold table foot
    split
    · exact (List.append_nil _).symm
    · simp only [unpadded_append, unpadded_toString, List.append_assoc]
      rfl
  obtain ⟨i, j, k, hrows⟩ := unpadded_arrowTable h
  refine ⟨i, j, k, ?_⟩
  rw [hfoot, ← List.cons_append, hrows]
  simp only [List.append_assoc, List.cons_append]

/-- **The table is faithful.** Two automata whose symbols are letters or the empty word, and that
have the same table, have the same arrows in the same order, and they are both empty, or neither is
and they accept in the same state. -/
theorem of_table_eq {m n : Automaton}
    (hm : ∀ arrow ∈ m.arrows, Symbol.isLiteral arrow.symbol = true)
    (hn : ∀ arrow ∈ n.arrows, Symbol.isLiteral arrow.symbol = true) (h : m.table = n.table) :
    m.arrows = n.arrows ∧ m.isEmpty = n.isEmpty ∧ (m.isEmpty = false → m.accept = n.accept) := by
  have hdash : ∀ i, '|' ∉ List.replicate i '-' :=
    fun i hmem => absurd (List.eq_of_mem_replicate hmem) (by decide)
  have hfoot : ∀ a : Automaton, ¬ ['\n', '|'] <+: a.foot := by
    intro a hprefix
    unfold foot at hprefix
    split at hprefix
    · exact absurd hprefix (by decide)
    · exact absurd (List.cons_prefix_cons.mp (List.cons_prefix_cons.mp hprefix).2).1 (by decide)
  obtain ⟨i, j, k, hm⟩ := unpadded_table hm
  obtain ⟨i', j', k', hn⟩ := unpadded_table hn
  rw [h, hn] at hm
  replace hm := List.append_cancel_left hm
  obtain ⟨-, hm⟩ := append_stop_inj (hdash _) (hdash _) hm
  obtain ⟨-, hm⟩ := append_stop_inj (hdash _) (hdash _) hm
  obtain ⟨-, hm⟩ := append_stop_inj (hdash _) (hdash _) hm
  obtain ⟨harrows, hend⟩ := Arrow.selfDelimiting_row.flatMap_inj ['\n', '|']
    (fun _ _ => ⟨_, rfl⟩) (fun _ _ => trivial) (fun _ _ => trivial) (hfoot n) (hfoot m) hm
  obtain ⟨hempty, haccept⟩ := foot_inj hend.symm
  exact ⟨harrows.symm, hempty, haccept⟩

end Automaton

end RegexAutomata
