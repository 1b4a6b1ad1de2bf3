import Mathlib.Data.List.TakeWhile
import RegexAutomata.Automaton.Drawing
import RegexAutomata.Proofs.Rendering.Table

/-!
# The drawing shows states, arrows and the accepting state

The source of a drawing is a head, any number of statements (`Statement`), and a brace: the
states come first, then the mark of the start, then the arrows, all in one flat text. A statement
can be cut off from what is behind it (`Statement.selfDelimiting_text`): its first word ends at a
blank, and the character behind the blank tells a state from an arrow. The mark of the start has
a word where the others have a numeral.

Numerals and letters are identifiers as they stand, and the empty word has a label that no letter
has, so nothing is lost in the labels either. The accepting state is not written down: it shows
in the shape of the states with its number, if it is among the states at all.

Main result: `of_table_eq_of_graph_eq`.
-/

namespace RegexAutomata

open Text Drawing

namespace Drawing

theorem identifier_of_isBare {text : String} (h : isBare text = true) : identifier text = text :=
  if_pos h

theorem withoutLineEnd_of_not_mem {text : List Char} (h : '\n' ∉ text) :
    withoutLineEnd text = text :=
  if_neg fun hlast => h (List.mem_of_getLast? hlast)

theorem toLower_eq_self {c : Char} (h : c.isAlpha = false) : c.toLower = c := by
  have hnot : c.isUpper = false := (Bool.or_eq_false_iff.mp h).1
  exact dif_neg fun hupper => Bool.eq_false_iff.mp hnot (decide_eq_true hupper)

/-- All keywords are made of letters, so one other character is enough. -/
theorem not_keyword_of_mem {text : String} {c : Char} (hc : c ∈ text.toList)
    (halpha : c.isAlpha = false) : keywords.contains text.toLower = false := by
  have hletters : ∀ keyword ∈ keywords, ∀ d ∈ keyword.toList, d.isAlpha = true := by
    simp [keywords]
  rw [List.contains_eq_mem, decide_eq_false_iff_not]
  intro hkeyword
  have hlower : c.toLower ∈ text.toLower.toList := by
    unfold String.toLower
    rw [String.toList_map]
    exact List.mem_map_of_mem hc
  have hisAlpha := hletters _ hkeyword _ hlower
  rw [toLower_eq_self halpha, halpha] at hisAlpha
  exact absurd hisAlpha (by decide)

theorem isUnsigned_of_digits {text : List Char} (hne : text ≠ [])
    (h : ∀ c ∈ text, c.isDigit = true) : isUnsigned text = true := by
  unfold isUnsigned
  rw [List.takeWhile_eq_self_iff.mpr h, List.dropWhile_eq_nil_iff.mpr h]
  exact (Bool.not_eq_true' _).mpr (List.isEmpty_eq_false_iff.mpr hne)

theorem isNumeral_numeral (x : Int) : isNumeral (toString x).toList = true := by
  have hunsigned : ∀ n : Nat, isUnsigned n.repr.toList = true := by
    intro n
    refine isUnsigned_of_digits ?_ fun c hc => isDigit_of_mem_repr hc
    rw [Nat.toList_repr]
    exact Nat.toDigits_ne_nil
  obtain ⟨n, ⟨-, hdigits⟩ | ⟨-, hsigned⟩⟩ := numeral_eq x
  · rw [hdigits]
    unfold isNumeral
    split
    next rest hcons => exact absurd (hcons ▸ List.mem_cons_self) (sign_notMem_repr n)
    next => exact hunsigned n
  · rw [hsigned]
    exact hunsigned n

/-- Numerals are identifiers as they stand. -/
theorem identifier_numeral (x : Int) : identifier (toString x) = toString x := by
  have hline : '\n' ∉ (toString x).toList := fun h => absurd (isNumeric_of_mem h) (by decide)
  have hkeyword : keywords.contains (toString x).toLower = false := by
    obtain ⟨c, hc⟩ := List.exists_mem_of_ne_nil _ (numeral_ne_nil x)
    exact not_keyword_of_mem hc (isAlpha_of_isNumeric (isNumeric_of_mem hc))
  refine identifier_of_isBare ?_
  show (isBracketed _ || (isWord _ || isNumeral _) && !_) = true
  rw [withoutLineEnd_of_not_mem hline, isNumeral_numeral, hkeyword, Bool.or_true, Bool.not_false,
    Bool.and_true, Bool.or_true]

/-- A letter is an identifier as it stands: no keyword is that short. -/
theorem identifier_singleton {c : Char} (h : c.isAlpha = true) :
    identifier (String.singleton c) = String.singleton c := by
  have hline : '\n' ∉ [c] := by
    intro hmem
    rw [List.mem_singleton] at hmem
    exact absurd (hmem ▸ h) (by decide)
  have hkeyword : keywords.contains (String.singleton c).toLower = false := by
    have hlong : ∀ keyword ∈ keywords, keyword.toList.length ≠ 1 := by decide
    rw [List.contains_eq_mem, decide_eq_false_iff_not]
    intro hmem
    refine hlong _ hmem ?_
    unfold String.toLower
    rw [String.toList_map, List.length_map, String.toList_singleton, List.length_singleton]
  refine identifier_of_isBare ?_
  have hword : isWord [c] = true := by
    simp [isWord, startsWord, h]
  show (isBracketed _ || (isWord _ || isNumeral _) && !_) = true
  rw [String.toList_singleton, withoutLineEnd_of_not_mem hline, hword, hkeyword, Bool.true_or,
    Bool.not_false, Bool.and_true, Bool.or_true]

/-- The label of a symbol. -/
def label (symbol : Char) : String :=
  identifier (if symbol = epsilon then "ε" else String.singleton symbol)

/-- A letter is its own label, and the empty word has its usual letter between quotes. -/
theorem toList_label {symbol : Char} (h : Symbol.isLiteral symbol = true) :
    (label symbol).toList = if symbol = epsilon then ['"', 'ε', '"'] else [symbol] := by
  unfold label
  split
  next => decide
  next hsymbol =>
    have halpha : symbol.isAlpha = true := by
      have hletter : Symbol.isLetter symbol = true := by
        simpa only [Symbol.isLiteral, Bool.or_eq_true, beq_iff_eq, hsymbol, or_false] using h
      exact Bool.or_eq_true_iff.mpr (.inr hletter)
    rw [identifier_singleton halpha, String.toList_singleton]

theorem selfDelimiting_label :
    SelfDelimiting (fun c => Symbol.isLiteral c = true) fun c => (label c).toList := by
  intro c hc d hd r s h
  simp only [toList_label hc, toList_label hd] at h
  split at h
  next hcempty =>
    split at h
    next hdempty => exact ⟨hcempty.trans hdempty.symm, List.append_cancel_left h⟩
    next => exact absurd (List.cons.inj h).1.symm (Symbol.ne_of_isLiteral hd rfl)
  next =>
    split at h
    next => exact absurd (List.cons.inj h).1 (Symbol.ne_of_isLiteral hc rfl)
    next => exact List.cons.inj h

end Drawing

/-- What is written between the head of a drawing and its end. -/
inductive Statement where
  | state (number : Int) (accepting : Bool)
  | start
  | arrow (arrow : Arrow)

namespace Statement

/-- The circle of a state. -/
def shape (accepting : Bool) : String :=
  if accepting then "doublecircle" else "circle"

/-- The statement in the language of drawings. -/
def text : Statement → String
  | state number accepting =>
    node (identifier (toString number)) (toString number)
      (shape accepting)
  | start => startMark
  | arrow a => a.edge

/-- The first word. -/
def subject : Statement → List Char
  | state number _ => (toString number).toList
  | start => "start".toList
  | arrow a => (toString a.source).toList

/-- What is behind the first word and a blank. -/
def predicate : Statement → String
  | state number accepting =>
    "[label=" ++ toString number ++ " shape=" ++ shape accepting ++ "]\n"
  | start => "[label=\"\" shape=point]\n\tstart -> 0\n"
  | arrow a => "-> " ++ toString a.target ++ " [label=" ++ label a.symbol ++ "]\n"

/-- Statements whose symbol, if they have one, is a letter or the empty word. -/
def IsLiteral : Statement → Prop
  | arrow a => Symbol.isLiteral a.symbol = true
  | _ => True

theorem toList_text (statement : Statement) :
    statement.text.toList
      = '\t' :: (statement.subject ++ ' ' :: statement.predicate.toList) := by
  cases statement with
  | state number accepting =>
    show (node _ _ _).toList = _
    unfold node Drawing.statement
    rw [identifier_numeral]
    simp only [subject, predicate, String.toList_append, List.append_assoc]
    rfl
  | start =>
    have hempty : identifier "" = "\"\"" := by decide
    show startMark.toList = _
    unfold startMark node Drawing.statement
    rw [identifier_numeral, hempty]
    simp only [String.toList_append, List.append_assoc]
    rfl
  | arrow a =>
    show a.edge.toList = _
    unfold Arrow.edge Drawing.statement
    rw [identifier_numeral, identifier_numeral]
    simp only [subject, predicate, String.toList_append, List.append_assoc]
    rfl

theorem blank_notMem_subject (statement : Statement) : ' ' ∉ statement.subject := by
  cases statement with
  | state number accepting => exact fun h => absurd (isNumeric_of_mem h) (by decide)
  | start => decide
  | arrow a => exact fun h => absurd (isNumeric_of_mem h) (by decide)

/-- A numeral is not the word for the start. -/
theorem numeral_ne_start (x : Int) : (toString x).toList ≠ "start".toList := by
  intro h
  have hletter : 's' ∈ (toString x).toList := by
    rw [h]
    decide
  exact absurd (isNumeric_of_mem hletter) (by decide)

theorem predicate_state_inj {number : Int} {x y : Bool} {r s : List Char}
    (h : (state number x).predicate.toList ++ r = (state number y).predicate.toList ++ s) :
    x = y ∧ r = s := by
  simp only [predicate, String.toList_append, List.append_assoc, List.append_cancel_left_eq] at h
  cases x <;> cases y
  case true.true | false.false =>
    exact ⟨rfl, List.append_cancel_left (List.append_cancel_left h)⟩
  case true.false | false.true => exact absurd (List.cons.inj h).1 (by decide)

theorem predicate_arrow_inj {a b : Arrow} {r s : List Char} (ha : (arrow a).IsLiteral)
    (hb : (arrow b).IsLiteral)
    (h : (arrow a).predicate.toList ++ r = (arrow b).predicate.toList ++ s) :
    a.target = b.target ∧ a.symbol = b.symbol ∧ r = s := by
  simp only [predicate, String.toList_append, List.append_assoc, List.append_cancel_left_eq] at h
  obtain ⟨htarget, hlabel⟩ := numeral_stop_inj ' ' rfl h
  obtain ⟨hsymbol, hend⟩ := selfDelimiting_label ha hb (List.append_cancel_left hlabel)
  exact ⟨htarget, hsymbol, List.append_cancel_left hend⟩

/-- What is said of a state is not what is said of the source of an arrow. -/
theorem predicate_state_ne {number : Int} {accepting : Bool} {a : Arrow} {r s : List Char} :
    (state number accepting).predicate.toList ++ r ≠ (arrow a).predicate.toList ++ s := by
  intro h
  simp only [predicate, String.toList_append, List.append_assoc] at h
  exact absurd (List.cons.inj h).1 (by decide)

/-- **Statements are told apart**, whatever is behind them. -/
theorem selfDelimiting_text :
    SelfDelimiting IsLiteral fun statement => statement.text.toList := by
  intro x hx y hy r s h
  simp only [toList_text, List.cons_append, List.append_assoc] at h
  obtain ⟨hsubject, hpredicate⟩ := append_stop_inj x.blank_notMem_subject
    y.blank_notMem_subject (List.cons.inj h).2
  cases x with
  | state number accepting =>
    cases y with
    | state number' accepting' =>
      obtain rfl := numeral_inj hsubject
      obtain ⟨rfl, hend⟩ := predicate_state_inj hpredicate
      exact ⟨rfl, hend⟩
    | start => exact absurd hsubject (numeral_ne_start number)
    | arrow a => exact absurd hpredicate predicate_state_ne
  | start =>
    cases y with
    | state number accepting => exact absurd hsubject.symm (numeral_ne_start number)
    | start => exact ⟨rfl, List.append_cancel_left hpredicate⟩
    | arrow a => exact absurd hsubject.symm (numeral_ne_start a.source)
  | arrow a =>
    cases y with
    | state number accepting => exact absurd hpredicate.symm predicate_state_ne
    | start => exact absurd hsubject (numeral_ne_start a.source)
    | arrow b =>
      obtain ⟨htarget, hsymbol, hend⟩ := predicate_arrow_inj hx hy hpredicate
      have hsource : a.source = b.source := numeral_inj hsubject
      have harrow : a = b := by
        cases a
        cases b
        exact (Arrow.mk.injEq ..).mpr ⟨hsource, hsymbol, htarget⟩
      exact ⟨congrArg arrow harrow, hend⟩

end Statement

namespace Automaton

/-- The statements of the drawing, in their order. -/
def statements (a : Automaton) : List Statement :=
  (a.states.map fun s => .state s (s = a.accept))
    ++ ((if a.isEmpty then [] else [.start]) ++ a.arrows.map .arrow)

/-- The source of a drawing: head, statements and brace. -/
theorem toList_graph (a : Automaton) (name : String) :
    (a.graph name).toList = (graphHead name ++ statement "rankdir=LR").toList
      ++ ((a.statements.flatMap fun s => s.text.toList) ++ ['\x7d', '\n']) := by
  have hstates : (a.states.map a.stateNode).flatMap String.toList
      = (a.states.map fun s => Statement.state s (s = a.accept)).flatMap
        fun s => s.text.toList := by
    rw [List.flatMap_map, List.flatMap_map]
    refine List.flatMap_congr fun s _ => ?_
    unfold stateNode Statement.text Statement.shape
    simp only [decide_eq_true_eq]
  have hstart : (if a.isEmpty then "" else startMark).toList
      = (if a.isEmpty then [] else [Statement.start]).flatMap fun s => s.text.toList := by
    split
    · rfl
    · exact (List.append_nil _).symm
  have harrows : (a.arrows.map Arrow.edge).flatMap String.toList
      = (a.arrows.map Statement.arrow).flatMap fun s => s.text.toList := by
    rw [List.flatMap_map, List.flatMap_map]
    rfl
  unfold graph statements
  simp only [String.toList_append, String.toList_join, hstates, hstart, harrows,
    List.flatMap_append, List.append_assoc]
  rfl

theorem isLiteral_statements {a : Automaton}
    (h : ∀ arrow ∈ a.arrows, Symbol.isLiteral arrow.symbol = true) :
    ∀ s ∈ a.statements, s.IsLiteral := by
  intro s hs
  cases s with
  | state => trivial
  | start => trivial
  | arrow arrow =>
    have harrow : arrow ∈ a.arrows := by
      simpa [statements] using hs
    exact h arrow harrow

theorem statements_of_graph_eq {m n : Automaton} {name : String}
    (hm : ∀ arrow ∈ m.arrows, Symbol.isLiteral arrow.symbol = true)
    (hn : ∀ arrow ∈ n.arrows, Symbol.isLiteral arrow.symbol = true)
    (h : m.graph name = n.graph name) : m.statements = n.statements := by
  have htext := congrArg String.toList h
  rw [toList_graph, toList_graph] at htext
  have hlead : ∀ s : Statement, ['\t'] <+: s.text.toList := by
    intro s
    rw [s.toList_text]
    exact ⟨_, rfl⟩
  exact (Statement.selfDelimiting_text.flatMap_inj ['\t'] (fun s _ => hlead s)
    (isLiteral_statements hm) (isLiteral_statements hn) (by decide) (by decide)
    (List.append_cancel_left htext)).1

end Automaton

/-- The number of a state. -/
def Statement.number? : Statement → Option Int
  | state number _ => some number
  | _ => none

/-- The arrow of an edge. -/
def Statement.arrow? : Statement → Option Arrow
  | arrow a => some a
  | _ => none

namespace Automaton

/-- The mark of the start is the only statement that is about neither a state nor an arrow. -/
theorem filterMap_statements {β : Type} {f : Statement → Option β} (hstart : f .start = none)
    (a : Automaton) :
    a.statements.filterMap f = (a.states.filterMap fun s => f (.state s (s = a.accept)))
      ++ a.arrows.filterMap fun arrow => f (.arrow arrow) := by
  have hmark : (if a.isEmpty then [] else [Statement.start]).filterMap f = [] := by
    split
    · rfl
    · rw [List.filterMap_cons_none hstart, List.filterMap_nil]
  unfold statements
  rw [List.filterMap_append, List.filterMap_append, hmark, List.filterMap_map, List.filterMap_map,
    List.nil_append]
  rfl

theorem filterMap_number? (a : Automaton) :
    a.statements.filterMap Statement.number? = a.states := by
  rw [filterMap_statements rfl]
  show a.states.filterMap some ++ a.arrows.filterMap (fun _ => none) = a.states
  rw [List.filterMap_some, List.filterMap_eq_nil_iff.mpr fun _ _ => rfl, List.append_nil]

theorem filterMap_arrow? (a : Automaton) :
    a.statements.filterMap Statement.arrow? = a.arrows := by
  rw [filterMap_statements rfl]
  show a.states.filterMap (fun _ => none) ++ a.arrows.filterMap some = a.arrows
  rw [List.filterMap_some, List.filterMap_eq_nil_iff.mpr fun _ _ => rfl, List.nil_append]

/-- A state with a double circle accepts, and the accepting state has one if it is listed. -/
theorem accepting_mem_statements_iff {a : Automaton} {s : Int} :
    .state s true ∈ a.statements ↔ a.accept ∈ a.states ∧ a.accept = s := by
  cases hempty : a.isEmpty <;> simp [statements, hempty]

/-- **Table and drawing are faithful.** Take two automata whose symbols are letters or the empty
word. If their tables are the same, so are their arrows in their order; both are empty or neither
is; and if they are not, they accept in the same state. If their drawings are the same, so are
their states and their arrows in their order, and also the accepting state, as soon as one of them
lists it among its states. -/
theorem of_table_eq_of_graph_eq (m n : Automaton)
    (hm : ∀ arrow ∈ m.arrows, Symbol.isLiteral arrow.symbol = true)
    (hn : ∀ arrow ∈ n.arrows, Symbol.isLiteral arrow.symbol = true) :
    (m.table = n.table → m.arrows = n.arrows ∧ m.isEmpty = n.isEmpty ∧
      (m.isEmpty = false → m.accept = n.accept)) ∧
    (∀ name, m.graph name = n.graph name → m.states = n.states ∧ m.arrows = n.arrows ∧
      (m.accept ∈ m.states → m.accept = n.accept)) := by
  constructor
  · exact of_table_eq hm hn
  · intro name h
    have hstatements := statements_of_graph_eq hm hn h
    refine ⟨?_, ?_, fun haccept => ?_⟩
    · rw [← m.filterMap_number?, hstatements, n.filterMap_number?]
    · rw [← m.filterMap_arrow?, hstatements, n.filterMap_arrow?]
    · have hmem := accepting_mem_statements_iff.mpr ⟨haccept, rfl⟩
      rw [hstatements] at hmem
      exact (accepting_mem_statements_iff.mp hmem).2.symm

/-- Two automata that differ only in the state in which they accept, with an arrow for the empty
word and a negative number: neither the tables nor the drawings are the same. -/
theorem of_table_eq_of_graph_eq_accepting :
    let m : Automaton := ⟨[0, 1, -1], [⟨0, 'a', 1⟩, ⟨1, 'E', -1⟩], 1⟩
    let n : Automaton := { m with accept := -1 }
    m.table ≠ n.table ∧ m.graph "nfa" ≠ n.graph "nfa" := by
  intro m n
  obtain ⟨htable, hgraph⟩ := of_table_eq_of_graph_eq m n (by decide) (by decide)
  have haccept : m.accept ≠ n.accept := by decide
  exact ⟨fun h => haccept ((htable h).2.2 rfl), fun h => haccept ((hgraph "nfa" h).2.2 (by decide))⟩

end Automaton

end RegexAutomata
