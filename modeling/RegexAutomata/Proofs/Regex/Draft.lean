import RegexAutomata.Fault
import RegexAutomata.Regex.Grammar

/-!
# Drafts of a regex

A draft is a regex that has been read up to some point, as trees: for the group that is being
read its finished alternatives and the alternative under way, and the same for every group
around it that is still open. It is what the two stacks of the machine mean, with no reduction
in it: a `)` puts the finished group into the one around it, and nothing is ever put off.

Reading a character is a function (`Draft.take`), so a text has one draft at most. Three facts
tie drafts to the grammar:

* `Draft.text_read`: the draft of a text spells that text;
* `Draft.read_text`: the text of a phrase is read, and the phrase is what it adds;
* `Draft.text_whole`: a draft whose open groups are all closed is a phrase.

The grammar is unambiguous for that reason (`Phrase.text_injective`): a phrase can be recovered
from the draft of its text. `exists_draft_of_text` and `text_of_draft` say which texts are
regexes but for groups left open: those whose draft has an alternative under way, and the
closing parentheses that are missing are as many as its open groups.
-/

namespace RegexAutomata

/-- The same term with one more star on its last factor. -/
def Phrase.starLast : Phrase .term → Phrase .term
  | .alone factor => .alone (.starred factor)
  | .followed term factor => .followed term (.starred factor)

/-- The alternatives, the last of them first, in front of the others. -/
def Phrase.choice (finished : List (Phrase .term)) (others : Phrase .regex) : Phrase .regex :=
  finished.foldl (fun others term => .either term others) others

/-- A group as far as it has been read. -/
structure Layer where
  /-- The alternatives that a bar has ended, the last of them first. -/
  finished : List (Phrase .term)
  /-- The alternative under way, once it has a factor. -/
  current : Option (Phrase .term)

namespace Layer

def blank : Layer := ⟨[], none⟩

/-- The alternative under way with one more factor. -/
def extend (l : Layer) (factor : Phrase .factor) : Phrase .term :=
  match l.current with
  | none => .alone factor
  | some term => .followed term factor

def push (l : Layer) (factor : Phrase .factor) : Layer :=
  ⟨l.finished, some (l.extend factor)⟩

/-- The finished alternatives as they were read, each with the bar behind it. -/
def finishedText : List (Phrase .term) → List Char
  | [] => []
  | term :: before => finishedText before ++ term.text ++ ['|']

def currentText : Option (Phrase .term) → List Char
  | none => []
  | some term => term.text

def text (l : Layer) : List Char :=
  finishedText l.finished ++ currentText l.current

/-- The regex that the group holds when it ends behind a factor. -/
def regex? (l : Layer) : Option (Phrase .regex) :=
  l.current.map fun term => .choice l.finished (.only term)

end Layer

/-- A regex as far as it has been read. -/
structure Draft where
  /-- The innermost open group, or the regex itself. -/
  inner : Layer
  /-- What stands around it, up to the parenthesis of each group, from the inside out. -/
  outer : List Layer

namespace Draft

def start : Draft := ⟨.blank, []⟩

/-- Reads one character more. -/
def take (d : Draft) (c : Char) : Except Cause Draft :=
  if h : Symbol.isLiteral c = true then
    .ok ⟨d.inner.push (.plain (.literal c h)), d.outer⟩
  else if c = '*' then
    match d.inner.current with
    | none => .error .nothingToRepeat
    | some term => .ok ⟨⟨d.inner.finished, some term.starLast⟩, d.outer⟩
  else if c = '|' then
    match d.inner.current with
    | none => .error .missingLeft
    | some term => .ok ⟨⟨term :: d.inner.finished, none⟩, d.outer⟩
  else if c = '(' then .ok ⟨.blank, d.inner :: d.outer⟩
  else if c = ')' then
    -- that no group is open goes before everything that is wrong inside
    match d.outer with
    | [] => .error .nothingOpen
    | layer :: outer =>
      match d.inner.regex? with
      | none => .error .emptyGroup
      | some p => .ok ⟨layer.push (.plain (.group p)), outer⟩
  else .error (.strayText (String.singleton c))

def read (d : Draft) (cs : List Char) : Except Cause Draft :=
  cs.foldlM take d

/-- What has been read around the innermost group. -/
def outerText : List Layer → List Char
  | [] => []
  | layer :: outer => outerText outer ++ layer.text ++ ['(']

def text (d : Draft) : List Char :=
  outerText d.outer ++ d.inner.text

/-- The regex in the groups around it, all of which end with it. -/
def wrap (p : Phrase .regex) : List Layer → Phrase .regex
  | [] => p
  | layer :: outer => wrap (.choice layer.finished (.only (layer.extend (.plain (.group p))))) outer

/-- The regex that has been read when it ends here and every open group ends with it. -/
def whole? (d : Draft) : Option (Phrase .regex) :=
  d.inner.regex?.map (wrap · d.outer)

/-! ## Reading a character -/

theorem take_literal (d : Draft) {c : Char} (h : Symbol.isLiteral c = true) :
    d.take c = .ok ⟨d.inner.push (.plain (.literal c h)), d.outer⟩ :=
  dif_pos h

theorem take_star (d : Draft) :
    d.take '*' = match d.inner.current with
      | none => .error .nothingToRepeat
      | some term => .ok ⟨⟨d.inner.finished, some term.starLast⟩, d.outer⟩ := rfl

theorem take_bar (d : Draft) :
    d.take '|' = match d.inner.current with
      | none => .error .missingLeft
      | some term => .ok ⟨⟨term :: d.inner.finished, none⟩, d.outer⟩ := rfl

theorem take_opening (d : Draft) : d.take '(' = .ok ⟨.blank, d.inner :: d.outer⟩ := rfl

theorem take_closing (d : Draft) :
    d.take ')' = match d.outer with
      | [] => .error .nothingOpen
      | layer :: outer =>
        match d.inner.regex? with
        | none => .error .emptyGroup
        | some p => .ok ⟨layer.push (.plain (.group p)), outer⟩ := rfl

theorem read_cons (d : Draft) (c : Char) (cs : List Char) :
    d.read (c :: cs) = (d.take c).bind fun next => next.read cs := rfl

theorem read_append (d : Draft) (xs ys : List Char) :
    d.read (xs ++ ys) = (d.read xs).bind fun next => next.read ys :=
  List.foldlM_append

theorem read_cons_eq_ok {d d' : Draft} {c : Char} {cs : List Char} :
    d.read (c :: cs) = .ok d' ↔ ∃ next, d.take c = .ok next ∧ next.read cs = .ok d' := by
  rw [read_cons]
  cases d.take c with
  | error cause => exact ⟨fun h => absurd h (by simp [Except.bind]), fun ⟨_, h, _⟩ => by contradiction⟩
  | ok next => exact ⟨fun h => ⟨next, rfl, h⟩, fun ⟨_, rfl, h⟩ => h⟩

theorem read_append_eq_ok {d d' : Draft} {xs ys : List Char} :
    d.read (xs ++ ys) = .ok d' ↔ ∃ next, d.read xs = .ok next ∧ next.read ys = .ok d' := by
  rw [read_append]
  cases d.read xs with
  | error cause => exact ⟨fun h => absurd h (by simp [Except.bind]), fun ⟨_, h, _⟩ => by contradiction⟩
  | ok next => exact ⟨fun h => ⟨next, rfl, h⟩, fun ⟨_, rfl, h⟩ => h⟩

/-- Induction on a reading that ends in `d'`, character by character from the front. What holds of
every character that is read goes by this to the whole text. -/
@[elab_as_elim]
theorem read_induction {d' : Draft}
    {motive : ∀ (d : Draft) (cs : List Char), d.read cs = .ok d' → Prop}
    {d : Draft} {cs : List Char} (h : d.read cs = .ok d') (nil : motive d' [] rfl)
    (cons : ∀ {d next : Draft} {c : Char} {cs : List Char} (htake : d.take c = .ok next)
      (hread : next.read cs = .ok d'), motive next cs hread →
        motive d (c :: cs) (read_cons_eq_ok.mpr ⟨next, htake, hread⟩)) :
    motive d cs h := by
  induction cs generalizing d with
  | nil =>
    cases h
    exact nil
  | cons c cs ih =>
    obtain ⟨next, htake, hread⟩ := read_cons_eq_ok.mp h
    exact cons htake hread (ih hread)

/-- A character that is read leaves a draft of one of five forms. -/
inductive Taken (d : Draft) : Char → Draft → Prop where
  | literal {c : Char} (h : Symbol.isLiteral c = true) :
    Taken d c ⟨d.inner.push (.plain (.literal c h)), d.outer⟩
  | star {term : Phrase .term} (h : d.inner.current = some term) :
    Taken d '*' ⟨⟨d.inner.finished, some term.starLast⟩, d.outer⟩
  | bar {term : Phrase .term} (h : d.inner.current = some term) :
    Taken d '|' ⟨⟨term :: d.inner.finished, none⟩, d.outer⟩
  | opening : Taken d '(' ⟨.blank, d.inner :: d.outer⟩
  | closing {layer : Layer} {outer : List Layer} {term : Phrase .term}
    (houter : d.outer = layer :: outer) (h : d.inner.current = some term) :
    Taken d ')' ⟨layer.push (.plain (.group (.choice d.inner.finished (.only term)))), outer⟩

theorem taken_of_take {d d' : Draft} {c : Char} (h : d.take c = .ok d') : d.Taken c d' := by
  unfold take at h
  split at h
  · next hlit =>
    cases h
    exact .literal hlit
  · split at h
    · next hc =>
      subst hc
      split at h
      · contradiction
      · next term hterm =>
        cases h
        exact .star hterm
    · split at h
      · next hc =>
        subst hc
        split at h
        · contradiction
        · next term hterm =>
          cases h
          exact .bar hterm
      · split at h
        · next hc =>
          subst hc
          cases h
          exact .opening
        · split at h
          · next hc =>
            subst hc
            split at h
            · contradiction
            · next layer outer houter =>
              split at h
              · contradiction
              · next p hp =>
                cases h
                obtain ⟨term, hterm, rfl⟩ := Option.map_eq_some_iff.mp hp
                exact .closing houter hterm
          · contradiction

end Draft

/-! ## What has been read -/

namespace Phrase

@[simp] theorem text_starLast (term : Phrase .term) : term.starLast.text = term.text ++ ['*'] := by
  cases term with
  | alone factor => rfl
  | followed term factor => exact (List.append_assoc _ _ _).symm

theorem text_choice (finished : List (Phrase .term)) (others : Phrase .regex) :
    (choice finished others).text = Layer.finishedText finished ++ others.text := by
  induction finished generalizing others with
  | nil => rfl
  | cons term before ih =>
    rw [choice, List.foldl_cons, ← choice, ih, text, Layer.finishedText]
    simp only [List.append_assoc, List.singleton_append]

end Phrase

namespace Layer

theorem text_extend (l : Layer) (factor : Phrase .factor) :
    (l.extend factor).text = currentText l.current ++ factor.text := by
  unfold extend
  split <;> next h => rw [h]; rfl

theorem text_push (l : Layer) (factor : Phrase .factor) :
    (l.push factor).text = l.text ++ factor.text := by
  show finishedText l.finished ++ (l.extend factor).text = _
  rw [text_extend, text, List.append_assoc]

end Layer

namespace Draft

theorem text_take {d d' : Draft} {c : Char} (h : d.take c = .ok d') :
    d'.text = d.text ++ [c] := by
  cases taken_of_take h with
  | literal hlit =>
    show outerText d.outer ++ (d.inner.push _).text = _
    rw [Layer.text_push, ← List.append_assoc]
    rfl
  | star hterm =>
    simp only [text, Layer.text, Layer.currentText, hterm, Phrase.text_starLast,
      List.append_assoc]
  | bar hterm =>
    simp only [text, Layer.text, Layer.finishedText, Layer.currentText, hterm,
      List.append_assoc, List.append_nil]
  | opening =>
    show (outerText d.outer ++ d.inner.text ++ ['(']) ++ [] = _
    rw [List.append_nil]
    rfl
  | @closing layer outer term houter hterm =>
    -- the parentheses of the group become part of the factor that the layer gets
    show outerText outer ++ (layer.push _).text = outerText d.outer ++ d.inner.text ++ [')']
    rw [Layer.text_push, houter]
    simp only [Phrase.text, Phrase.text_choice, outerText, Layer.text, hterm, Layer.currentText,
      List.append_assoc, List.cons_append, List.nil_append]

/-- **The draft of a text spells the text.** -/
theorem text_read {cs : List Char} {d d' : Draft} (h : d.read cs = .ok d') :
    d'.text = d.text ++ cs := by
  induction h using read_induction with
  | nil => exact (List.append_nil _).symm
  | cons htake _ ih =>
    rw [ih, text_take htake, List.append_assoc]
    rfl

/-- The text of a regex in groups around it: what stands in front, its own text, and a closing
parenthesis for each group. -/
theorem text_wrap (outer : List Layer) (p : Phrase .regex) :
    (wrap p outer).text = outerText outer ++ p.text ++ List.replicate outer.length ')' := by
  induction outer generalizing p with
  | nil => exact (List.append_nil _).symm
  | cons layer outer ih =>
    simp only [wrap, ih, Phrase.text_choice, Phrase.text, Layer.text_extend, outerText, Layer.text,
      List.length_cons, List.replicate_succ, List.append_assoc, List.cons_append,
      List.nil_append]

/-- **A draft whose groups are closed is a regex.** -/
theorem text_whole {d : Draft} {p : Phrase .regex} (h : d.whole? = some p) :
    p.text = d.text ++ List.replicate d.outer.length ')' := by
  obtain ⟨q, hq, rfl⟩ := Option.map_eq_some_iff.mp h
  obtain ⟨term, hterm, rfl⟩ := Option.map_eq_some_iff.mp hq
  rw [text_wrap, Phrase.text_choice, text, Layer.text, hterm]
  rfl

end Draft

/-! ## The draft of a phrase -/

namespace Layer

/-- The group once a phrase has been read into it: factors are put behind the others, and all
alternatives of a regex but the last are finished. -/
def add {rank : Rank} : Phrase rank → Layer → Layer
  | .literal c h, l => l.push (.plain (.literal c h))
  | .group inner, l => l.push (.plain (.group inner))
  | .plain atom, l => l.push (.plain atom)
  | .starred factor, l => l.push (.starred factor)
  | .alone factor, l => ⟨l.finished, some (.alone factor)⟩
  | .followed term factor, l => ⟨l.finished, some (.followed term factor)⟩
  | .only term, l => ⟨l.finished, some term⟩
  | .either term others, l => add others ⟨term :: l.finished, none⟩

/-- A term or a regex can only begin where an alternative begins. -/
def Ready (l : Layer) : Rank → Prop
  | .atom | .factor => True
  | .term | .regex => l.current = none

theorem add_factor (l : Layer) (factor : Phrase .factor) : add factor l = l.push factor := by
  cases factor with
  | plain atom => rfl
  | starred factor => rfl

theorem add_term (l : Layer) (term : Phrase .term) : add term l = ⟨l.finished, some term⟩ := by
  cases term with
  | alone factor => rfl
  | followed term factor => rfl

/-- A regex that has been read into a group is the choice that the group ends as. -/
theorem regex?_add (l : Layer) (p : Phrase .regex) :
    (add p l).regex? = some (.choice l.finished p) := by
  match p with
  | .only term => rfl
  | .either term others => exact regex?_add ⟨term :: l.finished, none⟩ others

end Layer

namespace Draft

/-- **The text of a phrase is read**, wherever the phrase can stand, and adds the phrase to the
innermost group. -/
theorem read_text {rank : Rank} (p : Phrase rank) :
    ∀ (l : Layer) (outer : List Layer), l.Ready rank →
      (Draft.mk l outer).read p.text = .ok ⟨.add p l, outer⟩ := by
  induction p with
  | literal c hlit =>
    intro l outer _
    rw [Phrase.text, read_cons, take_literal _ hlit]
    rfl
  | group inner ih =>
    -- the group is read with the layer put aside, and comes back to it as a factor
    intro l outer _
    have hinner := ih .blank (l :: outer) rfl
    rw [Phrase.text, List.cons_append, read_cons, take_opening]
    show (Draft.mk .blank (l :: outer)).read (inner.text ++ [')']) = _
    rw [read_append, hinner]
    show (Draft.mk (.add inner .blank) (l :: outer)).read [')'] = _
    rw [read_cons, take_closing]
    simp only [Layer.regex?_add]
    rfl
  | plain atom ih =>
    intro l outer hready
    rw [Phrase.text, ih l outer hready]
    cases atom <;> rfl
  | starred factor ih =>
    -- the factor is in the term already when its star comes
    intro l outer _
    rw [Phrase.text, read_append, ih l outer trivial, Layer.add_factor]
    show (Draft.mk (l.push factor) outer).read ['*'] = _
    rw [read_cons, take_star]
    show Except.ok (Draft.mk ⟨l.finished, some (l.extend factor).starLast⟩ outer) = _
    have hstar : (l.extend factor).starLast = l.extend (.starred factor) := by
      unfold Layer.extend
      split <;> rfl
    rw [hstar]
    rfl
  | alone factor ih =>
    -- here it counts that no alternative is under way: else the factor would join it
    intro l outer hready
    have hextend : l.extend factor = .alone factor := by
      rw [Layer.extend, show l.current = none from hready]
    rw [Phrase.text, ih l outer trivial, Layer.add_factor]
    show Except.ok (Draft.mk ⟨l.finished, some (l.extend factor)⟩ outer) = _
    rw [hextend]
    rfl
  | followed term factor ih ih' =>
    intro l outer hready
    rw [Phrase.text, read_append, ih l outer hready, Layer.add_term]
    show (Draft.mk ⟨l.finished, some term⟩ outer).read factor.text = _
    rw [ih' ⟨l.finished, some term⟩ outer trivial, Layer.add_factor]
    rfl
  | only term ih =>
    intro l outer hready
    rw [Phrase.text, ih l outer hready, Layer.add_term]
    rfl
  | either term others ih ih' =>
    intro l outer hready
    rw [Phrase.text, read_append, ih l outer hready, Layer.add_term]
    exact ih' ⟨term :: l.finished, none⟩ outer rfl

theorem read_regex (p : Phrase .regex) : start.read p.text = .ok ⟨.add p .blank, []⟩ :=
  read_text p .blank [] rfl

end Draft

/-- **The grammar is unambiguous**: a text is the text of one regex at most. -/
theorem Phrase.text_injective {p q : Phrase .regex} (h : p.text = q.text) : p = q := by
  have hp := Draft.read_regex p
  rw [h, Draft.read_regex q] at hp
  injection hp with hdraft
  injection hdraft with hlayer
  have hregex := congrArg Layer.regex? hlayer
  rw [Layer.regex?_add, Layer.regex?_add] at hregex
  injection hregex with hpq
  exact hpq.symm

namespace Draft

/-! ## Groups left open -/

/-- Closing parentheses close open groups one by one, and the whole regex stays the same. -/
theorem read_closings (k : Nat) :
    ∀ d d' : Draft, d.read (List.replicate k ')') = .ok d' →
      d.outer.length = d'.outer.length + k ∧ d.whole? = d'.whole? := by
  induction k with
  | zero =>
    intro d d' h
    cases h
    exact ⟨rfl, rfl⟩
  | succ k ih =>
    intro d d' h
    obtain ⟨next, hnext, hrest⟩ := read_cons_eq_ok.mp h
    obtain ⟨hlength, hwhole⟩ := ih next d' hrest
    rw [← hwhole]
    -- a parenthesis is no letter, so a group was closed
    cases taken_of_take hnext with
    | literal hlit => exact absurd hlit (by decide)
    | closing houter hterm =>
      constructor
      · rw [houter, List.length_cons, hlength]
        omega
      · rw [whole?, Layer.regex?, hterm, houter]
        rfl

/-- A text that becomes a regex by closing parentheses has a draft. The parentheses are as many
as the draft has open groups, and the regex is the one the draft ends as. -/
theorem exists_draft_of_text {p : Phrase .regex} {w : List Char} {k : Nat}
    (h : p.text = w ++ List.replicate k ')') :
    ∃ d, start.read w = .ok d ∧ d.outer.length = k ∧ d.whole? = some p := by
  have hread := read_regex p
  rw [h] at hread
  obtain ⟨d, hw, hclosings⟩ := read_append_eq_ok.mp hread
  obtain ⟨hlength, hwhole⟩ := read_closings k d _ hclosings
  refine ⟨d, hw, by simpa using hlength, ?_⟩
  rw [hwhole, whole?, Layer.regex?_add]
  rfl

/-- The draft of a text, when it can end, ends as a regex that is the text and a closing
parenthesis for each open group. -/
theorem text_of_draft {w : List Char} {d : Draft} {p : Phrase .regex}
    (hread : start.read w = .ok d) (hwhole : d.whole? = some p) :
    p.text = w ++ List.replicate d.outer.length ')' := by
  rw [text_whole hwhole, text_read hread]
  rfl

/-- A character that is read opens or closes a group, if it is a parenthesis. -/
theorem length_outer_take {d d' : Draft} {c : Char} (h : d.take c = .ok d') :
    d'.outer.length + [c].count ')' = d.outer.length + [c].count '(' := by
  cases taken_of_take h with
  | literal hlit =>
    have hopen : c ≠ '(' := Symbol.ne_of_isLiteral hlit rfl
    have hclose : c ≠ ')' := Symbol.ne_of_isLiteral hlit rfl
    rw [List.count_cons_of_ne hclose, List.count_cons_of_ne hopen]
    rfl
  | star _ => rfl
  | bar _ => rfl
  | opening => rfl
  | closing houter _ =>
    rw [houter]
    rfl

/-- The open groups of a draft are counted by the parentheses of its text. -/
theorem length_outer_read {cs : List Char} {d d' : Draft} (h : d.read cs = .ok d') :
    d'.outer.length + cs.count ')' = d.outer.length + cs.count '(' := by
  induction h using read_induction with
  | nil => rfl
  | cons htake _ ih =>
    have hstep := length_outer_take htake
    rw [← List.singleton_append, List.count_append, List.count_append]
    omega

end Draft

end RegexAutomata
