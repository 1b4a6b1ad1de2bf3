import Mathlib.Data.List.Sort
import Mathlib.Logic.Function.Iterate
import Mathlib.Logic.Relation
import RegexAutomata.Automaton.Explore

/-!
# What an exploration finds

A search computes reachability, no more and no less, whether it goes by depth or by breadth.
`Search.Sound` is what every round keeps:

* the states of the start are found, and nothing is found twice;
* found states are reached from the start;
* a found state that does not wait any more has all its targets among the found ones.

So the found states are closed under the edges as soon as nothing waits. Where the new states are
put among the waiting ones makes no difference to any of this: all that a round does is in
`mem_waiting_round` and `mem_found_round`, which do not mention the order.

Together with `exists_rounds`, which says that the search ends and how soon, this gives
`mem_reach_iff`: `reach order edges states` holds exactly the states to which a chain of edges
leads from one of `states`. Nothing is assumed about the graph. Last, a set of states is listed in
order in one way only (`ascending_eq_iff`).
-/

namespace RegexAutomata

/-- The graph has an edge from `s` to `t`. -/
def Linked (edges : List (Int × Int)) (s t : Int) : Prop := (s, t) ∈ edges

theorem nodup_eraseDups (states : List Int) : states.eraseDups.Nodup := by
  match states with
  | [] => exact .nil
  | first :: rest =>
    rw [List.eraseDups_cons, List.nodup_cons, List.mem_eraseDups]
    refine ⟨fun hmem => ?_, nodup_eraseDups _⟩
    simpa using (List.mem_filter.mp hmem).2
termination_by states.length
decreasing_by
  have := List.length_filter_le (fun state => !state == first) rest
  simp only [List.length_cons]
  omega

namespace Search

variable {order : Order} {edges : List (Int × Int)} {search : Search} {origins : List Int}
  {s t u : Int} {rest : List Int}

/-! ## What a round does -/

theorem mem_insert (order : Order) {waiting : List Int} :
    t ∈ order.insert s waiting ↔ t = s ∨ t ∈ waiting := by
  cases order with
  | depth => exact List.mem_cons
  | breadth =>
    rw [Order.insert, List.mem_append, List.mem_singleton]
    exact or_comm

theorem mem_found_visit : t ∈ (search.visit order u).found ↔ t = u ∨ t ∈ search.found := by
  unfold visit
  split
  · next hu =>
    refine ⟨.inr, fun h => h.elim ?_ id⟩
    rintro rfl
    exact hu
  · exact List.mem_cons

theorem mem_waiting_visit :
    t ∈ (search.visit order u).waiting ↔ t ∈ search.waiting ∨ t = u ∧ t ∉ search.found := by
  unfold visit
  split
  · next hu =>
    refine ⟨.inl, fun h => h.elim id ?_⟩
    rintro ⟨rfl, hnew⟩
    exact absurd hu hnew
  · next hu =>
    rw [mem_insert, or_comm]
    refine or_congr_right ⟨?_, And.left⟩
    rintro rfl
    exact ⟨rfl, hu⟩

theorem nodup_visit (h : search.found.Nodup) : (search.visit order u).found.Nodup := by
  unfold visit
  split
  · exact h
  · next hu => exact List.nodup_cons.mpr ⟨hu, h⟩

theorem mem_found_visits (ts : List Int) (search : Search) :
    t ∈ (ts.foldl (visit order) search).found ↔ t ∈ ts ∨ t ∈ search.found := by
  induction ts generalizing search with
  | nil => simp
  | cons u ts ih =>
    rw [List.foldl_cons, ih, mem_found_visit, List.mem_cons, or_left_comm, or_assoc]

theorem mem_waiting_visits (ts : List Int) (search : Search) :
    t ∈ (ts.foldl (visit order) search).waiting ↔
      t ∈ search.waiting ∨ t ∈ ts ∧ t ∉ search.found := by
  induction ts generalizing search with
  | nil => simp
  | cons u ts ih =>
    rw [List.foldl_cons, ih, mem_waiting_visit, mem_found_visit, List.mem_cons, or_assoc]
    refine or_congr_right ?_
    by_cases htu : t = u
    · simp [htu]
    · simp [htu]

theorem nodup_visits (ts : List Int) (search : Search) (h : search.found.Nodup) :
    (ts.foldl (visit order) search).found.Nodup := by
  induction ts generalizing search with
  | nil => exact h
  | cons u ts ih => exact ih _ (nodup_visit h)

/-- **One round**, when a state waits: its targets are found. -/
theorem mem_found_round (h : search.waiting = s :: rest) :
    t ∈ (search.round order edges).found ↔ Linked edges s t ∨ t ∈ search.found := by
  rw [round, h, mem_found_visits, mem_targets, Linked]

/-- **One round**, when a state waits: it is looked at, and its new targets wait. -/
theorem mem_waiting_round (h : search.waiting = s :: rest) :
    t ∈ (search.round order edges).waiting ↔ t ∈ rest ∨ Linked edges s t ∧ t ∉ search.found := by
  rw [round, h, mem_waiting_visits, mem_targets, Linked]

/-! ## What a round keeps -/

/-- What holds of a search from some states, at any time. -/
structure Sound (edges : List (Int × Int)) (origins : List Int) (search : Search) : Prop where
  nodup : search.found.Nodup
  origins_found : ∀ s ∈ origins, s ∈ search.found
  reached : ∀ t ∈ search.found, ∃ s ∈ origins, Relation.ReflTransGen (Linked edges) s t
  waiting_found : ∀ t ∈ search.waiting, t ∈ search.found
  finished : ∀ t ∈ search.found, t ∉ search.waiting → ∀ u, Linked edges t u → u ∈ search.found

theorem sound_start (edges : List (Int × Int)) (origins : List Int) :
    Sound edges origins (start origins) where
  nodup := nodup_eraseDups origins
  origins_found _ hs := List.mem_eraseDups.mpr hs
  reached t ht := ⟨t, List.mem_eraseDups.mp ht, .refl⟩
  waiting_found _ ht := ht
  finished _ ht hwait := absurd ht hwait

theorem Sound.round (h : Sound edges origins search) :
    Sound edges origins (search.round order edges) := by
  cases hwaiting : search.waiting with
  | nil =>
    rw [Search.round, hwaiting]
    exact h
  | cons s rest =>
    have hs : s ∈ search.found := h.waiting_found s (hwaiting ▸ List.mem_cons_self)
    refine ⟨?_, ?_, ?_, ?_, ?_⟩
    · rw [Search.round, hwaiting]
      exact nodup_visits _ _ h.nodup
    · exact fun t ht => (mem_found_round hwaiting).mpr (.inr (h.origins_found t ht))
    · intro t ht
      rcases (mem_found_round hwaiting).mp ht with hlink | hold
      · obtain ⟨r, hr, hchain⟩ := h.reached s hs
        exact ⟨r, hr, hchain.tail hlink⟩
      · exact h.reached t hold
    · intro t ht
      refine (mem_found_round hwaiting).mpr ?_
      rcases (mem_waiting_round hwaiting).mp ht with hrest | ⟨hlink, -⟩
      · exact .inr (h.waiting_found t (hwaiting ▸ List.mem_cons_of_mem _ hrest))
      · exact .inl hlink
    · intro t ht hwait u hlink
      rw [mem_waiting_round hwaiting, not_or] at hwait
      rw [mem_found_round hwaiting] at ht ⊢
      by_cases hts : t = s
      · exact .inl (hts ▸ hlink)
      · -- any other state that does not wait now was found and finished before
        have hold : t ∈ search.found := by
          by_contra hnew
          exact hwait.2 ⟨ht.resolve_right hnew, hnew⟩
        refine .inr (h.finished t hold ?_ u hlink)
        rw [hwaiting, List.mem_cons, not_or]
        exact ⟨hts, hwait.1⟩

/-! ## The end of the search -/

/-- **The search ends**, on every graph, and what it has found then is its result. -/
theorem exists_rounds (order : Order) (edges : List (Int × Int)) (search : Search) :
    ∃ n ≤ search.load edges, (Search.round order edges)^[n] search = ⟨[], search.run order edges⟩ := by
  induction search using run.induct order edges with
  | case1 search hwaiting =>
    refine ⟨0, Nat.zero_le _, ?_⟩
    rw [run, if_pos hwaiting, ← hwaiting]
    rfl
  | case2 search hwaiting ih =>
    obtain ⟨n, hn, hrounds⟩ := ih
    have hload := load_round_lt order edges hwaiting
    refine ⟨n + 1, by omega, ?_⟩
    rw [run, if_neg hwaiting, Function.iterate_succ_apply]
    exact hrounds

theorem Sound.iterate (h : Sound edges origins search) (n : Nat) :
    Sound edges origins ((Search.round order edges)^[n] search) := by
  induction n generalizing search with
  | zero => exact h
  | succ n ih => exact ih h.round

theorem Sound.run (h : Sound edges origins search) :
    Sound edges origins ⟨[], search.run order edges⟩ := by
  obtain ⟨n, -, hrounds⟩ := exists_rounds order edges search
  rw [← hrounds]
  exact h.iterate n

/-- What a search has found when nothing waits any more. -/
theorem Sound.mem_found_iff (h : Sound edges origins search) (hwaiting : search.waiting = []) :
    t ∈ search.found ↔ ∃ s ∈ origins, Relation.ReflTransGen (Linked edges) s t := by
  refine ⟨h.reached t, fun hreached => ?_⟩
  obtain ⟨s, hs, hchain⟩ := hreached
  induction hchain with
  | refl => exact h.origins_found s hs
  | tail _ hlink ih => exact h.finished _ ih (hwaiting ▸ List.not_mem_nil) _ hlink

end Search

section Reach

variable {order : Search.Order} {edges : List (Int × Int)} {states : List Int}

/-- **Reachability.** The exploration from some states finds exactly the states that a chain
of edges leads to from one of them. -/
theorem mem_reach_iff {t : Int} :
    t ∈ reach order edges states ↔ ∃ s ∈ states, Relation.ReflTransGen (Linked edges) s t :=
  (Search.sound_start edges states).run.mem_found_iff rfl

theorem nodup_reach : (reach order edges states).Nodup :=
  (Search.sound_start edges states).run.nodup

/-- There is at most one round for each state of the start and for each edge. -/
theorem exists_rounds_reach (order : Search.Order) (edges : List (Int × Int))
    (states : List Int) :
    ∃ n ≤ edges.length + states.eraseDups.length,
      (Search.round order edges)^[n] (.start states) = ⟨[], reach order edges states⟩ := by
  obtain ⟨n, hn, hrounds⟩ := Search.exists_rounds order edges (.start states)
  have hunseen : unseen edges states.eraseDups ≤ edges.length := List.countP_le_length
  exact ⟨n, Nat.le_trans hn (Nat.add_le_add_right hunseen _), hrounds⟩

end Reach

/-! ## Listing in order -/

theorem mem_insertAscending {n m : Int} {states : List Int} :
    m ∈ insertAscending n states ↔ m = n ∨ m ∈ states := by
  induction states with
  | nil => rw [insertAscending, List.mem_cons]
  | cons first rest ih =>
    rw [insertAscending]
    split
    · exact List.mem_cons
    · split
      · next heq =>
        rw [heq, List.mem_cons]
        exact ⟨.inr, fun h => h.elim .inl id⟩
      · rw [List.mem_cons, ih, List.mem_cons]
        exact or_left_comm

theorem mem_ascending {m : Int} {states : List Int} : m ∈ ascending states ↔ m ∈ states := by
  induction states with
  | nil => rfl
  | cons first rest ih =>
    rw [ascending, List.foldr_cons, mem_insertAscending, ← ascending, ih, List.mem_cons]

theorem pairwise_insertAscending (n : Int) {states : List Int} (h : states.Pairwise (· < ·)) :
    (insertAscending n states).Pairwise (· < ·) := by
  induction h with
  | nil => exact List.pairwise_singleton _ _
  | @cons first rest hfirst hrest ih =>
    rw [insertAscending]
    split
    · next hlt =>
      refine .cons ?_ (.cons hfirst hrest)
      intro m hm
      rcases List.mem_cons.mp hm with rfl | hm
      · exact hlt
      · exact Int.lt_trans hlt (hfirst m hm)
    · split
      · exact .cons hfirst hrest
      · refine .cons ?_ ih
        intro m hm
        rcases mem_insertAscending.mp hm with rfl | hm
        · omega
        · exact hfirst m hm

theorem pairwise_ascending (states : List Int) : (ascending states).Pairwise (· < ·) := by
  induction states with
  | nil => exact .nil
  | cons first rest ih => exact pairwise_insertAscending first ih

/-- A set has one list in order. -/
theorem ascending_eq_iff {states more : List Int} :
    ascending states = ascending more ↔ ∀ s, s ∈ states ↔ s ∈ more := by
  constructor
  · intro h s
    rw [← mem_ascending, h, mem_ascending]
  · intro h
    refine (pairwise_ascending states).eq_of_mem_iff (pairwise_ascending more) fun s => ?_
    rw [mem_ascending, mem_ascending]
    exact h s

end RegexAutomata
