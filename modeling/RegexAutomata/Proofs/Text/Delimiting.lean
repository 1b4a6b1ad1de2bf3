/-!
# Texts that show where they end

Nothing in the printed automata is escaped, and no length is announced. What makes such a text
readable is that each of its parts shows by itself where it ends, whatever stands behind it:
`SelfDelimiting`. A numeral ends at the first character that is neither a digit nor a sign, and
so does every text that ends in a character which does not occur in it before
(`append_stop_inj`).

Parts of this kind can be written one after the other without any limit to their number, as long
as the text behind them does not begin like one more part: `SelfDelimiting.flatMap_inj`.
-/

namespace RegexAutomata

namespace Text

/-- The texts of the things in a class can be told apart, and cut off, whatever is behind them. -/
def SelfDelimiting {α : Type} (domain : α → Prop) (write : α → List Char) : Prop :=
  ∀ ⦃x⦄, domain x → ∀ ⦃y⦄, domain y → ∀ ⦃r s⦄, write x ++ r = write y ++ s → x = y ∧ r = s

/-- **Runs are read back.** Any number of self-delimiting texts, one after the other, can be
told apart, and so can what is behind them, if it does not begin like all these texts. -/
theorem SelfDelimiting.flatMap_inj {α : Type} {domain : α → Prop} {write : α → List Char}
    (h : SelfDelimiting domain write) (lead : List Char)
    (hlead : ∀ x, domain x → lead <+: write x) {xs ys : List α} {r s : List Char}
    (hxs : ∀ x ∈ xs, domain x) (hys : ∀ y ∈ ys, domain y) (hr : ¬ lead <+: r) (hs : ¬ lead <+: s)
    (heq : xs.flatMap write ++ r = ys.flatMap write ++ s) : xs = ys ∧ r = s := by
  induction xs generalizing ys with
  | nil =>
    cases ys with
    | nil => exact ⟨rfl, heq⟩
    | cons y ys =>
      rw [List.flatMap_cons, List.append_assoc] at heq
      exact absurd ((hlead y (hys y List.mem_cons_self)).trans ⟨_, heq.symm⟩) hr
  | cons x xs ih =>
    rw [List.forall_mem_cons] at hxs
    rw [List.flatMap_cons, List.append_assoc] at heq
    cases ys with
    | nil => exact absurd ((hlead x hxs.1).trans ⟨_, heq⟩) hs
    | cons y ys =>
      rw [List.forall_mem_cons] at hys
      rw [List.flatMap_cons, List.append_assoc] at heq
      obtain ⟨rfl, hrest⟩ := h hxs.1 hys.1 heq
      obtain ⟨rfl, hend⟩ := ih hxs.2 hys.2 hrest
      exact ⟨rfl, hend⟩

/-- With one more separator in front, each of the separated texts has its own. -/
theorem append_intercalate (sep : List Char) {texts : List (List Char)} (h : texts ≠ []) :
    sep ++ sep.intercalate texts = texts.flatMap (sep ++ ·) := by
  induction texts with
  | nil => exact absurd rfl h
  | cons text texts ih =>
    rw [List.flatMap_cons]
    cases texts with
    | nil => rw [List.intercalate_singleton, List.flatMap_nil, List.append_nil]
    | cons next texts =>
      rw [List.intercalate_cons_cons, List.append_assoc text, ih (List.cons_ne_nil _ _),
        List.append_assoc]

/-- Two texts that are ended by the same character, which occurs in neither of them. -/
theorem append_stop_inj {stop : Char} {xs ys r s : List Char} (hxs : stop ∉ xs) (hys : stop ∉ ys)
    (h : xs ++ stop :: r = ys ++ stop :: s) : xs = ys ∧ r = s := by
  induction xs generalizing ys with
  | nil =>
    cases ys with
    | nil => exact ⟨rfl, (List.cons.inj h).2⟩
    | cons y ys => exact absurd ((List.cons.inj h).1 ▸ List.mem_cons_self) hys
  | cons x xs ih =>
    cases ys with
    | nil => exact absurd ((List.cons.inj h).1 ▸ List.mem_cons_self) hxs
    | cons y ys =>
      obtain ⟨rfl, htail⟩ := List.cons.inj h
      obtain ⟨rfl, hrest⟩ := ih (List.not_mem_of_not_mem_cons hxs)
        (List.not_mem_of_not_mem_cons hys) htail
      exact ⟨rfl, hrest⟩

/-! ### Numerals -/

/-- A character of the numerals of integers. -/
def isNumeric (c : Char) : Bool :=
  c.isDigit || c == '-'

/-- The numeral of a natural number: digits. -/
theorem isDigit_of_mem_repr {n : Nat} {c : Char} (h : c ∈ n.repr.toList) : c.isDigit = true := by
  rw [Nat.toList_repr] at h
  exact Nat.isDigit_of_mem_toDigits (by decide) (by decide) h

theorem sign_notMem_repr (n : Nat) : '-' ∉ n.repr.toList :=
  fun h => absurd (isDigit_of_mem_repr h) (by decide)

/-- Digits can be read back. -/
theorem repr_inj {m n : Nat} (h : m.repr.toList = n.repr.toList) : m = n := by
  rw [Nat.toList_repr, Nat.toList_repr] at h
  rw [← @Nat.ofDigitChars_ten_toDigits m, h, Nat.ofDigitChars_ten_toDigits]

/-- The numeral of an integer: digits, with a sign in front of them or not. -/
theorem numeral_eq (x : Int) :
    ∃ n : Nat, x = n ∧ (toString x).toList = n.repr.toList ∨
      x = -n ∧ (toString x).toList = '-' :: n.repr.toList := by
  rw [Int.toString_eq_repr, Int.repr_eq_if]
  split
  · exact ⟨x.toNat, .inl ⟨by omega, rfl⟩⟩
  · exact ⟨(-x).toNat, .inr ⟨by omega, String.toList_append⟩⟩

theorem isNumeric_of_mem {x : Int} {c : Char} (h : c ∈ (toString x).toList) :
    isNumeric c = true := by
  unfold isNumeric
  obtain ⟨n, ⟨-, hdigits⟩ | ⟨-, hsigned⟩⟩ := numeral_eq x
  · rw [isDigit_of_mem_repr (hdigits ▸ h), Bool.true_or]
  · rw [hsigned, List.mem_cons] at h
    obtain rfl | hdigit := h
    · rfl
    · rw [isDigit_of_mem_repr hdigit, Bool.true_or]

theorem numeral_ne_nil (x : Int) : (toString x).toList ≠ [] := by
  obtain ⟨n, ⟨-, hdigits⟩ | ⟨-, hsigned⟩⟩ := numeral_eq x
  · rw [hdigits, Nat.toList_repr]
    exact Nat.toDigits_ne_nil
  · rw [hsigned]
    exact List.cons_ne_nil _ _

theorem isAlpha_of_isNumeric {c : Char} (h : isNumeric c = true) : c.isAlpha = false := by
  -- digits and sign come before all letters
  have hupper : c.val < 'A'.val := by
    obtain hdigit | hsign := Bool.or_eq_true_iff.mp h
    · have hnine : c.val ≤ '9'.val := of_decide_eq_true (Bool.and_eq_true_iff.mp hdigit).2
      exact UInt32.lt_of_le_of_lt hnine (by decide)
    · rw [beq_iff_eq.mp hsign]
      decide
  have hlower : c.val < 'a'.val := UInt32.lt_trans hupper (by decide)
  refine Bool.or_eq_false_iff.mpr ⟨?_, ?_⟩
  · exact decide_eq_false fun hle => absurd hle.1 (UInt32.not_le.mpr hupper)
  · exact Bool.and_eq_false_imp.mpr fun hle =>
      absurd (of_decide_eq_true hle) (UInt32.not_le.mpr hlower)

theorem numeral_inj {x y : Int} (h : (toString x).toList = (toString y).toList) : x = y := by
  obtain ⟨m, ⟨rfl, hm⟩ | ⟨rfl, hm⟩⟩ := numeral_eq x
  · obtain ⟨n, ⟨rfl, hn⟩ | ⟨rfl, hn⟩⟩ := numeral_eq y
    · rw [repr_inj (hm.symm.trans (h.trans hn))]
    · have hsign : '-' :: n.repr.toList = m.repr.toList := hn.symm.trans (h.symm.trans hm)
      exact absurd (hsign ▸ List.mem_cons_self) (sign_notMem_repr m)
  · obtain ⟨n, ⟨rfl, hn⟩ | ⟨rfl, hn⟩⟩ := numeral_eq y
    · have hsign : '-' :: m.repr.toList = n.repr.toList := hm.symm.trans (h.trans hn)
      exact absurd (hsign ▸ List.mem_cons_self) (sign_notMem_repr n)
    · rw [repr_inj (List.cons.inj (hm.symm.trans (h.trans hn))).2]

/-- A numeral and what is behind it, told apart by the character at which the numeral ends. -/
theorem numeral_stop_inj (stop : Char) {x y : Int} {r s : List Char}
    (hstop : isNumeric stop = false)
    (h : (toString x).toList ++ stop :: r = (toString y).toList ++ stop :: s) :
    x = y ∧ r = s := by
  have hfree : ∀ z : Int, stop ∉ (toString z).toList := by
    intro z hmem
    exact absurd (isNumeric_of_mem hmem) (by rw [hstop]; decide)
  obtain ⟨htext, hrest⟩ := append_stop_inj (hfree x) (hfree y) h
  exact ⟨numeral_inj htext, hrest⟩

end Text

end RegexAutomata
