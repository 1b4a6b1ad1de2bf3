import RegexAutomata.Memory
import RegexAutomata.Proofs.Automaton.Shape

/-!
# What changes in memory change

Cells point to lists, and a list may be made longer through any cell that points to it. So an
automaton stays as it is, while another one is changed, only as long as no list belongs to both.
`Separate` says that this is so for all cells: every list that a cell points to is there, and no
other cell points to it.

On a separate memory each of the changes does to the automaton it is made for what one would
expect, keeps the others, and leaves the memory separate. `Creates`, `Changes` and `Keeps` say so,
with the automata as values; they are put together along the constructions, which thereby turn out
to make in memory what the constructions of values make (`made_alternate`, `changed_append` and the
like). After this nothing looks into cells and lists again.
-/

namespace RegexAutomata.Memory

/-! ## Lists that are pointed to -/

/-- The pointers lead to different ones of so many lists. -/
structure Apart (pointers : List Nat) (count : Nat) : Prop where
  nodup : pointers.Nodup
  lt : ∀ pointer ∈ pointers, pointer < count

section Lists

variable {α : Type} {lists : List (List α)} {pointer count : Nat} {pointers : List Nat}

theorem Apart.concat (h : Apart pointers count) : Apart (pointers ++ [count]) (count + 1) := by
  refine ⟨?_, fun p hp => ?_⟩
  · refine List.nodup_append.mpr ⟨h.nodup, List.pairwise_singleton _ _, fun p hp q hq heq => ?_⟩
    have hlt := h.lt p hp
    rw [List.mem_singleton.mp hq] at heq
    omega
  · rcases List.mem_append.mp hp with hp | hp
    · exact Nat.lt_succ_of_lt (h.lt p hp)
    · rw [List.mem_singleton.mp hp]
      exact Nat.lt_succ_self _

theorem Apart.ne {n k : Nat} (h : Apart pointers count) (hn : pointers[n]? = some pointer)
    (hne : k ≠ n) : pointers[k]? ≠ some pointer := by
  intro hk
  have hlt : n < pointers.length := (List.getElem?_eq_some_iff.mp hn).1
  exact hne ((List.getElem?_inj hlt h.nodup).mp (hn.trans hk.symm)).symm

theorem listAt_modify_self (h : pointer < lists.length) (more : List α) :
    listAt (lists.modify pointer (· ++ more)) (some pointer)
      = listAt lists (some pointer) ++ more := by
  simp only [listAt, Option.bind_some, List.getElem?_modify_eq, List.getElem?_eq_getElem h]
  rfl

theorem listAt_modify_other {other : Option Nat} (h : other ≠ some pointer) (more : List α) :
    listAt (lists.modify pointer (· ++ more)) other = listAt lists other := by
  cases other with
  | none => rfl
  | some p =>
    have hne : pointer ≠ p := fun heq => h (by rw [heq])
    simp only [listAt, Option.bind_some, List.getElem?_modify_ne _ _ hne]

theorem listAt_concat_new (new : List α) : listAt (lists ++ [new]) (some lists.length) = new := by
  simp only [listAt, Option.bind_some, List.getElem?_concat_length]
  rfl

theorem listAt_concat_old {other : Option Nat} (h : ∀ p ∈ other, p < lists.length)
    (new : List α) : listAt (lists ++ [new]) other = listAt lists other := by
  cases other with
  | none => rfl
  | some p => simp only [listAt, Option.bind_some, List.getElem?_append_left (h p rfl)]

end Lists

/-! ## What can become of the automata -/

variable {m m' m'' : Memory} {n k : Nat} {a b : Automaton}

/-- Every list that a cell points to is there, and no other cell points to it. -/
structure Separate (m : Memory) : Prop where
  states : Apart (m.cells.map (·.states)) m.stateLists.length
  arrows : Apart (m.cells.map (·.arrows)) m.arrowLists.length

theorem separate_empty : Separate empty :=
  ⟨⟨.nil, nofun⟩, ⟨.nil, nofun⟩⟩

/-- The automaton `n` has become `a`. No other one has changed, and none was made. -/
structure Changes (m m' : Memory) (n : Nat) (a : Automaton) : Prop where
  separate : Separate m'
  size_eq : m'.size = m.size
  read_self : m'.read n = a
  read_other : ∀ k, k ≠ n → m'.read k = m.read k

/-- The automaton `a` was made. No other one has changed. -/
structure Creates (m m' : Memory) (a : Automaton) : Prop where
  separate : Separate m'
  size_eq : m'.size = m.size + 1
  read_new : m'.read m.size = a
  read_old : ∀ k, k ≠ m.size → m'.read k = m.read k

/-- No automaton has changed; some may have been made. -/
structure Keeps (m m' : Memory) : Prop where
  separate : Separate m'
  size_le : m.size ≤ m'.size
  read_eq : ∀ k < m.size, m'.read k = m.read k

theorem Keeps.refl (h : Separate m) : Keeps m m :=
  ⟨h, Nat.le_refl _, fun _ _ => rfl⟩

theorem Creates.lt_size (h : Creates m m' a) : m.size < m'.size :=
  h.size_eq ▸ Nat.lt_succ_self _

theorem Creates.keeps (h : Creates m m' a) : Keeps m m' :=
  ⟨h.separate, Nat.le_of_lt h.lt_size, fun k hk => h.read_old k (Nat.ne_of_lt hk)⟩

theorem Changes.trans (first : Changes m m' n a) (second : Changes m' m'' n b) :
    Changes m m'' n b :=
  ⟨second.separate, second.size_eq.trans first.size_eq, second.read_self,
    fun k hk => (second.read_other k hk).trans (first.read_other k hk)⟩

/-- What is made may be changed until it is ready. -/
theorem Creates.changes (first : Creates m m' a) (second : Changes m' m'' m.size b) :
    Creates m m'' b :=
  ⟨second.separate, second.size_eq.trans first.size_eq, second.read_self,
    fun k hk => (second.read_other k hk).trans (first.read_old k hk)⟩

/-! ## Single changes -/

theorem exists_cell (hn : n < m.size) : ∃ cell, m.cells[n]? = some cell :=
  ⟨_, List.getElem?_eq_getElem hn⟩

/-- What a cell points to is there. -/
theorem Apart.lt_of_cell {pointer : Cell → Nat} {count : Nat}
    (h : Apart (m.cells.map pointer) count) : ∀ p ∈ (m.cells[k]?).map pointer, p < count := by
  intro p hp
  rw [← List.getElem?_map] at hp
  exact h.lt p (List.mem_of_getElem? hp)

/-- What a cell points to no other cell points to. -/
theorem Apart.ne_of_cell {pointer : Cell → Nat} {count : Nat} {cell : Cell}
    (h : Apart (m.cells.map pointer) count) (hcell : m.cells[n]? = some cell) (hne : k ≠ n) :
    (m.cells[k]?).map pointer ≠ some (pointer cell) := by
  rw [← List.getElem?_map]
  refine h.ne ?_ hne
  rw [List.getElem?_map, hcell]
  rfl

theorem getElem?_cells_create (a : Automaton) (hk : k ≠ m.size) :
    (m.create a).cells[k]? = m.cells[k]? := by
  rcases Nat.lt_or_gt_of_ne hk with hlt | hgt
  · exact List.getElem?_append_left hlt
  · have hlength : (m.create a).cells.length ≤ k := by
      rw [create, List.length_append]
      exact hgt
    rw [List.getElem?_eq_none hlength, List.getElem?_eq_none (Nat.le_of_lt hgt)]

theorem creates_create (h : Separate m) (a : Automaton) : Creates m (m.create a) a := by
  have hnew : (m.create a).cells[m.size]?
      = some ⟨m.stateLists.length, m.arrowLists.length, a.accept⟩ :=
    List.getElem?_concat_length
  refine ⟨⟨?_, ?_⟩, List.length_append, ?_, fun k hk => ?_⟩
  · simpa [create] using h.states.concat
  · simpa [create] using h.arrows.concat
  · simp only [read, states, arrows, accept, hnew, Option.map_some]
    simp only [create, listAt_concat_new]
    rfl
  · simp only [read, states, arrows, accept, getElem?_cells_create a hk]
    simp only [create, listAt_concat_old h.states.lt_of_cell, listAt_concat_old h.arrows.lt_of_cell]

theorem changes_extendStates (h : Separate m) (hn : n < m.size) (more : List Int) :
    Changes m (m.extendStates n more) n
      { m.read n with states := (m.read n).states ++ more } := by
  obtain ⟨cell, hcell⟩ := exists_cell hn
  have hextend : m.extendStates n more
      = { m with stateLists := m.stateLists.modify cell.states (· ++ more) } := by
    rw [extendStates, hcell]
  rw [hextend]
  refine ⟨⟨?_, h.arrows⟩, rfl, ?_, fun k hk => ?_⟩
  · rw [List.length_modify]
    exact h.states
  · have hlt : cell.states < m.stateLists.length := by
      refine h.states.lt_of_cell (k := n) _ ?_
      rw [hcell]
      rfl
    simp only [read, states, arrows, accept, hcell, Option.map_some, listAt_modify_self hlt]
  · simp only [read, states, arrows, accept, listAt_modify_other (h.states.ne_of_cell hcell hk)]

theorem changes_extendArrows (h : Separate m) (hn : n < m.size) (more : List Arrow) :
    Changes m (m.extendArrows n more) n
      { m.read n with arrows := (m.read n).arrows ++ more } := by
  obtain ⟨cell, hcell⟩ := exists_cell hn
  have hextend : m.extendArrows n more
      = { m with arrowLists := m.arrowLists.modify cell.arrows (· ++ more) } := by
    rw [extendArrows, hcell]
  rw [hextend]
  refine ⟨⟨h.states, ?_⟩, rfl, ?_, fun k hk => ?_⟩
  · rw [List.length_modify]
    exact h.arrows
  · have hlt : cell.arrows < m.arrowLists.length := by
      refine h.arrows.lt_of_cell (k := n) _ ?_
      rw [hcell]
      rfl
    simp only [read, states, arrows, accept, hcell, Option.map_some, listAt_modify_self hlt]
  · simp only [read, states, arrows, accept, listAt_modify_other (h.arrows.ne_of_cell hcell hk)]

theorem changes_setAccept (h : Separate m) (hn : n < m.size) (state : Int) :
    Changes m (m.setAccept n state) n { m.read n with accept := state } := by
  obtain ⟨cell, hcell⟩ := exists_cell hn
  have hself : (m.setAccept n state).cells[n]? = some { cell with accept := state } := by
    rw [setAccept, List.getElem?_modify_eq, hcell]
    rfl
  have hpointers : ∀ pointer : Cell → Nat,
      (∀ cell, pointer { cell with accept := state } = pointer cell) →
      (m.setAccept n state).cells.map pointer = m.cells.map pointer := by
    intro pointer hpointer
    refine List.ext_getElem? fun k => ?_
    rw [setAccept, List.getElem?_map, List.getElem?_modify, List.getElem?_map, Option.map_eq_map,
      Option.map_map]
    refine congrArg (fun f => m.cells[k]?.map f) (funext fun cell => ?_)
    simp only [Function.comp]
    split
    · exact hpointer cell
    · rfl
  refine ⟨⟨?_, ?_⟩, List.length_modify .., ?_, fun k hk => ?_⟩
  · rw [hpointers _ fun _ => rfl]
    exact h.states
  · rw [hpointers _ fun _ => rfl]
    exact h.arrows
  · simp only [read, states, arrows, accept, hself, hcell, Option.map_some]
    rfl
  · have hother : (m.setAccept n state).cells[k]? = m.cells[k]? := by
      rw [setAccept, List.getElem?_modify_ne _ _ (Ne.symm hk)]
    simp only [read, states, arrows, accept, hother]
    rfl

/-! ## The constructions -/

theorem Creates.extendArrows (h : Creates m m' a) (more : List Arrow) :
    Creates m (m'.extendArrows m.size more) { a with arrows := a.arrows ++ more } := by
  have hchanges := changes_extendArrows h.separate h.lt_size more
  rw [h.read_new] at hchanges
  exact h.changes hchanges

theorem Creates.setAccept (h : Creates m m' a) (state : Int) :
    Creates m (m'.setAccept m.size state) { a with accept := state } := by
  have hchanges := changes_setAccept h.separate h.lt_size state
  rw [h.read_new] at hchanges
  exact h.changes hchanges

/-- While an automaton is made, the others can be looked at as they were. -/
theorem Creates.arrows_old (h : Creates m m' a) (hk : k < m.size) : m'.arrows k = m.arrows k :=
  congrArg Automaton.arrows (h.read_old k (Nat.ne_of_lt hk))

theorem Creates.accept_old (h : Creates m m' a) (hk : k < m.size) : m'.accept k = m.accept k :=
  congrArg Automaton.accept (h.read_old k (Nat.ne_of_lt hk))

/-- The accepting state of a choice or a repetition is its last state. -/
theorem Creates.getLastD_new {count : Nat} (h : Creates m m' (.numbered (count + 1))) :
    (m'.states m.size).getLastD startState = count := by
  have hstates : m'.states m.size = _ := congrArg Automaton.states h.read_new
  rw [hstates]
  exact Automaton.getLastD_numbered count startState

/-- What work on memory that makes an automaton comes to. -/
def Made (m : Memory) (made : Except Fault Nat × Memory) : Except Fault Automaton → Prop
  | .ok a => made.1 = .ok m.size ∧ Creates m made.2 a
  | .error fault => made.1 = .error fault ∧ Keeps m made.2

theorem made_place (h : Separate m) (a : Except Fault Automaton) : Made m (m.place a) a := by
  cases a with
  | error fault => exact ⟨rfl, .refl h⟩
  | ok a => exact ⟨rfl, creates_create h a⟩

/-- A refused symbol leaves a cell behind that nobody knows. -/
theorem made_single (h : Separate m) (symbol : String) :
    Made m (m.single symbol) ((onlyChar? symbol).map Automaton.single) := by
  have hcreates := creates_create h (.numbered 2)
  unfold single
  cases onlyChar? symbol with
  | error fault => exact ⟨rfl, hcreates.keeps⟩
  | ok c => exact ⟨rfl, (hcreates.extendArrows [⟨0, c, 1⟩]).setAccept 1⟩

theorem made_alternate (h : Separate m) {l r : Nat} (hl : l < m.size) (hr : r < m.size) :
    Made m (m.alternate l r) (.ok ((m.read l).alternate (m.read r))) := by
  refine ⟨rfl, ?_⟩
  -- one stage for each change
  have h0 := creates_create h (.numbered ((m.states l).length + (m.states r).length + 2))
  have h1 := h0.extendArrows [⟨0, epsilon, 1⟩]
  have h2 := h1.extendArrows ((m.arrows l).map (·.shifted 1))
  have h3 := h2.extendArrows
    [⟨m.accept l + 1, epsilon, (m.states l).length + (m.states r).length + 1⟩]
  have h4 := h3.extendArrows [⟨0, epsilon, (m.states l).length + 1⟩]
  have h5 := h4.extendArrows ((m.arrows r).map (·.shifted ((m.states l).length + 1)))
  have h6 := h5.extendArrows
    [⟨m.accept r + ((m.states l).length + 1), epsilon,
      (m.states l).length + (m.states r).length + 1⟩]
  have h7 := h6.setAccept ((m.states l).length + (m.states r).length + 1)
  have haccept := h0.getLastD_new
  rw [Int.natCast_succ, Int.natCast_add] at haccept
  simp only [Memory.alternate]
  rw [haccept, h1.arrows_old hl, h2.accept_old hl, h4.arrows_old hr, h5.accept_old hr]
  exact h7

theorem made_star (h : Separate m) (hn : n < m.size) :
    Made m (m.star n) (.ok (m.read n).star) := by
  refine ⟨rfl, ?_⟩
  have h0 := creates_create h (.numbered ((m.states n).length + 2))
  have h1 := h0.extendArrows [⟨0, epsilon, 1⟩]
  have h2 := h1.extendArrows ((m.arrows n).map (·.shifted 1))
  have h3 := h2.extendArrows [⟨m.accept n + 1, epsilon, (m.states n).length + 1⟩]
  have h4 := h3.extendArrows [⟨m.accept n + 1, epsilon, 1⟩]
  have h5 := h4.extendArrows [⟨0, epsilon, (m.states n).length + 1⟩]
  have h6 := h5.setAccept ((m.states n).length + 1)
  have haccept := h0.getLastD_new
  rw [Int.natCast_succ] at haccept
  simp only [Memory.star, startState_add]
  rw [haccept, h0.accept_old hn, h1.arrows_old hn]
  -- the last three arrows come one by one here
  simp only [Automaton.star, List.append_assoc] at h6 ⊢
  exact h6

/-- A change that leaves the arrows of its automaton as they are leaves all arrows. -/
theorem Changes.arrows_eq (h : Changes m m' n a) (ha : a.arrows = m.arrows n) (k : Nat) :
    m'.arrows k = m.arrows k := by
  by_cases hk : k = n
  · rw [hk]
    exact (congrArg Automaton.arrows h.read_self).trans ha
  · exact congrArg Automaton.arrows (h.read_other k hk)

theorem Changes.accept_eq (h : Changes m m' n a) (ha : a.accept = m.accept n) (k : Nat) :
    m'.accept k = m.accept k := by
  by_cases hk : k = n
  · rw [hk]
    exact (congrArg Automaton.accept h.read_self).trans ha
  · exact congrArg Automaton.accept (h.read_other k hk)

/-- What work on memory that changes the automaton `n` comes to. -/
def Changed (m : Memory) (n : Nat) (made : Except Fault Unit × Memory) :
    Except Fault Automaton → Prop
  | .ok a => made.1 = .ok () ∧ Changes m made.2 n a
  | .error fault => made.1 = .error fault ∧ Keeps m made.2

theorem changed_add (h : Separate m) (hn : n < m.size) (row : Row) :
    Changed m n (m.add n row) (row.arrow?.map (m.read n).addArrow) := by
  unfold add
  cases row.arrow? with
  | error fault => exact ⟨rfl, .refl h⟩
  | ok arrow => exact ⟨rfl, changes_extendArrows h hn [arrow]⟩

/-- The offset is looked up before anything is changed, and nothing after that can be refused.
The automata need not differ: what is still to be read of the right one is not changed before. -/
theorem changed_append (h : Separate m) {l r : Nat} (hl : l < m.size) :
    Changed m l (m.append l r) ((m.read l).append? (m.read r)) := by
  unfold append
  cases hlast : (m.states l).getLast? with
  | none =>
    have hnil : (m.read l).states = [] := List.getLast?_eq_none_iff.mp hlast
    have hrefused : (m.read l).append? (m.read r) = .error .emptySequence := by
      rw [Automaton.append?, Automaton.isEmpty, hnil]
      rfl
    rw [hrefused]
    exact ⟨rfl, .refl h⟩
  | some offset =>
    have hjoined : (m.read l).append? (m.read r)
        = .ok (Automaton.glue offset (m.read l) (m.read r)) := by
      refine Automaton.append?_eq_ok_iff.mpr ⟨fun hnil => ?_, ?_⟩
      · have hsome := hlast.symm.trans (congrArg List.getLast? hnil)
        cases hsome
      · have hoffset : (m.read l).states.getLastD startState = offset := by
          rw [List.getLastD_eq_getLast?]
          exact congrArg (·.getD startState) hlast
        rw [Automaton.append, hoffset]
    have h1 := changes_extendStates h hl ((m.states r).tail.map (· + offset))
    have h2 := changes_extendArrows h1.separate (h1.size_eq ▸ hl)
      ((m.arrows r).map (·.shifted offset))
    rw [h1.read_self] at h2
    have h3 := changes_setAccept h2.separate ((h1.trans h2).size_eq ▸ hl) (m.accept r + offset)
    rw [h2.read_self] at h3
    rw [hjoined]
    refine ⟨rfl, ?_⟩
    simp only [h1.arrows_eq rfl, (h1.trans h2).accept_eq rfl]
    exact (h1.trans h2).trans h3

end RegexAutomata.Memory
