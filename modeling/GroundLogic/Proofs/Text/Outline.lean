import Mathlib.Data.List.Basic

/-!
# Outlines

A conjunction is written without parentheses, a disjunction with them, and what they are made of
looks like a name followed by a list in parentheses.  An outline is that much of a goal, with only
the text of each fact and each call.  When the marks of the notation stand nowhere else
(`Outline.Legible`), an outline can be told from its text except for the grouping of its
conjunctions (`Outline.text_eq_iff`).

The argument: grouped to the right, every outline is a chain of single parts.  The text of a single
part shows where it ends (`Outline.Delimited`), and so does the text of a chain when what follows
does not go on with a conjunction (`Outline.Separable`).
-/

namespace GroundLogic

/-! ## Texts without marks -/

namespace Text

/-- The characters that show how a goal is put together. -/
def marks : List Char :=
  ['(', ')', '&', '|']

theorem opening_mem_marks : '(' ∈ marks := by
  decide

theorem closing_mem_marks : ')' ∈ marks := by
  decide

def Plain (text : String) : Prop :=
  ∀ letter ∈ text.toList, letter ∉ marks

theorem plain_append {left right : String} (leftPlain : Plain left) (rightPlain : Plain right) :
    Plain (left ++ right) := by
  intro letter member
  rw [String.toList_append] at member
  cases List.mem_append.1 member with
  | inl inLeft => exact leftPlain letter inLeft
  | inr inRight => exact rightPlain letter inRight

/-- The first mark of a text and what stands before and after it. -/
theorem split_at_mark {left right : List Char} {mark other : Char} {rest others : List Char}
    (leftPlain : ∀ letter ∈ left, letter ∉ marks) (rightPlain : ∀ letter ∈ right, letter ∉ marks)
    (isMark : mark ∈ marks) (isOther : other ∈ marks)
    (same : left ++ mark :: rest = right ++ other :: others) :
    left = right ∧ mark = other ∧ rest = others := by
  induction left generalizing right with
  | nil =>
      cases right with
      | nil =>
          injection same with sameMark sameRest
          exact ⟨rfl, sameMark, sameRest⟩
      | cons letter right =>
          injection same with sameMark _
          rw [sameMark] at isMark
          exact absurd isMark (rightPlain letter List.mem_cons_self)
  | cons letter left inductionHypothesis =>
      cases right with
      | nil =>
          injection same with sameMark _
          rw [← sameMark] at isOther
          exact absurd isOther (leftPlain letter List.mem_cons_self)
      | cons first right =>
          injection same with sameLetter sameTail
          obtain ⟨sameLeft, sameMark, sameRest⟩ := inductionHypothesis
            (fun letter member => leftPlain letter (List.mem_cons_of_mem _ member))
            (fun letter member => rightPlain letter (List.mem_cons_of_mem _ member)) sameTail
          exact ⟨by rw [sameLetter, sameLeft], sameMark, sameRest⟩

/-- A name and a list in parentheses, neither of which holds a mark. -/
inductive Application : String → Prop
  | intro {name items : String} (plainName : Plain name) (plainItems : Plain items) :
      Application (name ++ ("(" ++ items ++ ")"))

end Text

/-- A goal of which only the texts of its facts and calls are known. -/
inductive Outline where
  | atom (written : String)
  | conj (left right : Outline)
  | disj (left right : Outline)

namespace Outline

def text : Outline → String
  | .atom written => written
  | .conj left right => left.text ++ " & " ++ right.text
  | .disj left right => "(" ++ left.text ++ " | " ++ right.text ++ ")"

/-- The texts of the facts and calls, from left to right. -/
def atoms : Outline → List String
  | .atom written => [written]
  | .conj left right => left.atoms ++ right.atoms
  | .disj left right => left.atoms ++ right.atoms

/-- The two outlines differ in how some of their conjunctions are grouped. -/
inductive Reassociates : Outline → Outline → Prop
  | assoc (first second third : Outline) :
      Reassociates (.conj (.conj first second) third) (.conj first (.conj second third))
  | refl (outline : Outline) : Reassociates outline outline
  | symm {first second : Outline} (same : Reassociates first second) : Reassociates second first
  | trans {first second third : Outline} (early : Reassociates first second)
      (late : Reassociates second third) : Reassociates first third
  | conj {left otherLeft right otherRight : Outline} (lefts : Reassociates left otherLeft)
      (rights : Reassociates right otherRight) :
      Reassociates (.conj left right) (.conj otherLeft otherRight)
  | disj {left otherLeft right otherRight : Outline} (lefts : Reassociates left otherLeft)
      (rights : Reassociates right otherRight) :
      Reassociates (.disj left right) (.disj otherLeft otherRight)

theorem Reassociates.text_eq {first second : Outline} (same : first.Reassociates second) :
    first.text = second.text := by
  induction same with
  | assoc first second third => simp only [text, String.append_assoc]
  | refl outline => rfl
  | symm _ inductionHypothesis => exact inductionHypothesis.symm
  | trans _ _ earlyHypothesis lateHypothesis => exact earlyHypothesis.trans lateHypothesis
  | conj _ _ leftHypothesis rightHypothesis => simp only [text, leftHypothesis, rightHypothesis]
  | disj _ _ leftHypothesis rightHypothesis => simp only [text, leftHypothesis, rightHypothesis]

/-! ## Grouping to the right -/

/-- The conjunction of two outlines, grouped to the right if the first one is. -/
def join : Outline → Outline → Outline
  | .conj first others, right => .conj first (others.join right)
  | .atom written, right => .conj (.atom written) right
  | .disj left other, right => .conj (.disj left other) right

/-- The outline with all its conjunctions grouped to the right. -/
def grouped : Outline → Outline
  | .atom written => .atom written
  | .conj left right => left.grouped.join right.grouped
  | .disj left right => .disj left.grouped right.grouped

theorem reassociates_join (left right : Outline) :
    (Outline.conj left right).Reassociates (left.join right) := by
  induction left with
  | atom written => exact .refl _
  | disj _ _ => exact .refl _
  | conj first others _ inductionHypothesis =>
      exact (Reassociates.assoc first others right).trans (.conj (.refl first) inductionHypothesis)

theorem reassociates_grouped (outline : Outline) : outline.Reassociates outline.grouped := by
  induction outline with
  | atom written => exact .refl _
  | disj _ _ leftHypothesis rightHypothesis => exact .disj leftHypothesis rightHypothesis
  | conj _ _ leftHypothesis rightHypothesis =>
      exact (Reassociates.conj leftHypothesis rightHypothesis).trans (reassociates_join _ _)

theorem join_ne_disj (first second left right : Outline) :
    first.join second ≠ .disj left right := by
  cases first <;> exact Outline.noConfusion

/-! ## Chains of single parts -/

/-- The outline is not a conjunction. -/
def Single : Outline → Prop
  | .conj _ _ => False
  | .atom _ => True
  | .disj _ _ => True

/-- The facts and calls are names with lists in parentheses, and no mark stands anywhere else. -/
def Legible (outline : Outline) : Prop :=
  ∀ written ∈ outline.atoms, Text.Application written

theorem legible_conj {left right : Outline} :
    (Outline.conj left right).Legible ↔ left.Legible ∧ right.Legible :=
  List.forall_mem_append

theorem legible_disj {left right : Outline} :
    (Outline.disj left right).Legible ↔ left.Legible ∧ right.Legible :=
  List.forall_mem_append

/-- A legible outline grouped to the right, inside its disjunctions too. -/
inductive Chain : Outline → Prop
  | atom {written : String} (shaped : Text.Application written) : Chain (.atom written)
  | disj {left right : Outline} (leftChain : Chain left) (rightChain : Chain right) :
      Chain (.disj left right)
  | conj {first others : Outline} (single : first.Single) (firstChain : Chain first)
      (othersChain : Chain others) : Chain (.conj first others)

theorem Chain.join {left right : Outline} (leftChain : left.Chain) (rightChain : right.Chain) :
    (left.join right).Chain := by
  induction leftChain with
  | atom shaped => exact .conj trivial (.atom shaped) rightChain
  | disj leftChain otherChain => exact .conj trivial (.disj leftChain otherChain) rightChain
  | conj single firstChain _ _ inductionHypothesis =>
      exact .conj single firstChain inductionHypothesis

theorem Legible.chain {outline : Outline} (legible : outline.Legible) : outline.grouped.Chain := by
  induction outline with
  | atom written => exact .atom (legible written (List.mem_singleton.2 rfl))
  | conj left right leftHypothesis rightHypothesis =>
      have both := legible_conj.1 legible
      exact (leftHypothesis both.1).join (rightHypothesis both.2)
  | disj left right leftHypothesis rightHypothesis =>
      have both := legible_disj.1 legible
      exact .disj (leftHypothesis both.1) (rightHypothesis both.2)

/-! ## Reading a chain back -/

/-- The characters of the text. -/
def letters (outline : Outline) : List Char :=
  outline.text.toList

theorem letters_conj (left right : Outline) :
    (Outline.conj left right).letters = left.letters ++ ' ' :: '&' :: ' ' :: right.letters := by
  simp [letters, text, String.toList_append]

theorem letters_disj (left right : Outline) (rest : List Char) :
    (Outline.disj left right).letters ++ rest =
      '(' :: (left.letters ++ ' ' :: '|' :: ' ' :: (right.letters ++ ')' :: rest)) := by
  simp [letters, text, String.toList_append]

theorem letters_atom (name items : String) (rest : List Char) :
    (Outline.atom (name ++ ("(" ++ items ++ ")"))).letters ++ rest =
      name.toList ++ '(' :: (items.toList ++ ')' :: rest) := by
  simp [letters, text, String.toList_append]

/-- What follows does not go on with a conjunction. -/
def Stops (rest : List Char) : Prop :=
  ∀ more, rest ≠ ' ' :: '&' :: more

theorem stops_nil : Stops [] := by
  simp [Stops]

theorem stops_bar (more : List Char) : Stops (' ' :: '|' :: more) := by
  simp [Stops]

theorem stops_closing (more : List Char) : Stops (')' :: more) := by
  simp [Stops]

/-- The text of a single part shows where it ends. -/
def Delimited (outline : Outline) : Prop :=
  ∀ (other : Outline) (rest others : List Char), other.Chain → other.Single →
    outline.letters ++ rest = other.letters ++ others → outline = other ∧ rest = others

/-- The text of a chain shows where it ends, unless what follows goes on with a conjunction. -/
def Separable (outline : Outline) : Prop :=
  ∀ (other : Outline) (rest others : List Char), other.Chain → Stops rest → Stops others →
    outline.letters ++ rest = other.letters ++ others → outline = other ∧ rest = others

/-- The first mark of every text opens a parenthesis. -/
theorem Chain.opens {outline : Outline} (chain : outline.Chain) :
    ∃ before after, (∀ letter ∈ before, letter ∉ Text.marks) ∧
      outline.letters = before ++ '(' :: after := by
  induction chain with
  | @atom written shaped =>
      cases shaped with
      | @intro name items plainName _ =>
          have opening := letters_atom name items []
          rw [List.append_nil] at opening
          exact ⟨name.toList, _, plainName, opening⟩
  | @disj left right _ _ _ _ =>
      have opening := letters_disj left right []
      rw [List.append_nil] at opening
      exact ⟨[], _, List.forall_mem_nil _, opening⟩
  | @conj first others _ _ _ firstHypothesis _ =>
      obtain ⟨before, after, plain, opening⟩ := firstHypothesis
      refine ⟨before, after ++ ' ' :: '&' :: ' ' :: others.letters, plain, ?_⟩
      rw [letters_conj, opening, List.append_assoc, List.cons_append]

/-- In a fact or a call the next mark closes the parenthesis, in a disjunction another one opens. -/
theorem letters_atom_ne_disj {written : String} (shaped : Text.Application written)
    {left right : Outline} (leftChain : left.Chain) (rest others : List Char) :
    (Outline.atom written).letters ++ rest ≠ (Outline.disj left right).letters ++ others := by
  intro same
  cases shaped with
  | @intro name items plainName plainItems =>
      obtain ⟨before, after, plainBefore, opening⟩ := leftChain.opens
      rw [letters_atom, letters_disj, opening, List.append_assoc] at same
      have inside := (Text.split_at_mark plainName (List.forall_mem_nil _) Text.opening_mem_marks
        Text.opening_mem_marks same).2.2
      have closes := (Text.split_at_mark plainItems plainBefore Text.closing_mem_marks
        Text.opening_mem_marks inside).2.1
      exact absurd closes (by decide)

theorem delimited_atom {written : String} (shaped : Text.Application written) :
    (Outline.atom written).Delimited := by
  intro other rest others chain single same
  cases chain with
  | conj _ _ _ => exact single.elim
  | disj leftChain _ => exact absurd same (letters_atom_ne_disj shaped leftChain rest others)
  | @atom otherWritten otherShaped =>
      cases shaped with
      | @intro name items plainName plainItems =>
          cases otherShaped with
          | @intro otherName otherItems plainOtherName plainOtherItems =>
              rw [letters_atom, letters_atom] at same
              obtain ⟨sameName, -, inside⟩ := Text.split_at_mark plainName plainOtherName
                Text.opening_mem_marks Text.opening_mem_marks same
              obtain ⟨sameItems, -, sameRest⟩ := Text.split_at_mark plainItems plainOtherItems
                Text.closing_mem_marks Text.closing_mem_marks inside
              rw [String.toList_inj.1 sameName, String.toList_inj.1 sameItems]
              exact ⟨rfl, sameRest⟩

theorem delimited_disj {left right : Outline} (leftChain : left.Chain)
    (leftSeparable : left.Separable) (rightSeparable : right.Separable) :
    (Outline.disj left right).Delimited := by
  intro other rest others chain single same
  cases chain with
  | conj _ _ _ => exact single.elim
  | atom shaped => exact absurd same.symm (letters_atom_ne_disj shaped leftChain others rest)
  | @disj otherLeft otherRight otherLeftChain otherRightChain =>
      rw [letters_disj, letters_disj] at same
      injection same with _ inside
      obtain ⟨rfl, afterLeft⟩ :=
        leftSeparable otherLeft _ _ otherLeftChain (stops_bar _) (stops_bar _) inside
      injection afterLeft with _ afterBlank
      injection afterBlank with _ afterBar
      injection afterBar with _ rights
      obtain ⟨rfl, afterRight⟩ :=
        rightSeparable otherRight _ _ otherRightChain (stops_closing _) (stops_closing _) rights
      injection afterRight with _ sameRest
      exact ⟨rfl, sameRest⟩

/-- A single part that is not followed by a conjunction has not the text of a longer chain. -/
theorem Delimited.separable {outline : Outline} (delimited : outline.Delimited) :
    outline.Separable := by
  intro other rest others chain stops _ same
  by_cases single : other.Single
  · exact delimited other rest others chain single same
  · cases chain with
    | atom _ => exact absurd trivial single
    | disj _ _ => exact absurd trivial single
    | @conj first next firstSingle firstChain _ =>
        rw [letters_conj, List.append_assoc] at same
        have goesOn := (delimited first rest _ firstChain firstSingle same).2
        exact absurd goesOn (stops _)

theorem separable_conj {first others : Outline} (delimited : first.Delimited)
    (separable : others.Separable) : (Outline.conj first others).Separable := by
  intro other rest more chain stops otherStops same
  rw [letters_conj, List.append_assoc] at same
  by_cases single : other.Single
  · have goesOn := (delimited other _ more chain single same).2
    exact absurd goesOn.symm (otherStops _)
  · cases chain with
    | atom _ => exact absurd trivial single
    | disj _ _ => exact absurd trivial single
    | @conj otherFirst next otherSingle otherFirstChain nextChain =>
        rw [letters_conj, List.append_assoc] at same
        obtain ⟨rfl, afterFirst⟩ := delimited otherFirst _ _ otherFirstChain otherSingle same
        simp only [List.cons_append, List.cons.injEq, true_and] at afterFirst
        obtain ⟨rfl, sameRest⟩ := separable next rest more nextChain stops otherStops afterFirst
        exact ⟨rfl, sameRest⟩

theorem Chain.separable {outline : Outline} (chain : outline.Chain) :
    (outline.Single → outline.Delimited) ∧ outline.Separable := by
  induction chain with
  | atom shaped =>
      have delimited := delimited_atom shaped
      exact ⟨fun _ => delimited, delimited.separable⟩
  | disj leftChain _ leftHypothesis rightHypothesis =>
      have delimited := delimited_disj leftChain leftHypothesis.2 rightHypothesis.2
      exact ⟨fun _ => delimited, delimited.separable⟩
  | conj single _ _ firstHypothesis othersHypothesis =>
      refine ⟨fun impossible => impossible.elim, ?_⟩
      exact separable_conj (firstHypothesis.1 single) othersHypothesis.2

/-! ## What a text tells -/

/-- Outlines that are written alike are the same once they are grouped alike. -/
theorem Legible.grouped_eq {first second : Outline} (firstLegible : first.Legible)
    (secondLegible : second.Legible) (same : first.text = second.text) :
    first.grouped = second.grouped := by
  have groupedAlike : first.grouped.letters = second.grouped.letters := by
    rw [letters, letters, ← first.reassociates_grouped.text_eq, same,
      second.reassociates_grouped.text_eq]
  have separable := firstLegible.chain.separable.2
  exact (separable second.grouped [] [] secondLegible.chain stops_nil stops_nil
    (by rw [groupedAlike])).1

theorem text_eq_iff {first second : Outline} (firstLegible : first.Legible)
    (secondLegible : second.Legible) :
    first.text = second.text ↔ first.Reassociates second := by
  constructor
  · intro same
    have alike := firstLegible.grouped_eq secondLegible same
    have there := second.reassociates_grouped
    rw [← alike] at there
    exact first.reassociates_grouped.trans there.symm
  · exact Reassociates.text_eq

end Outline

end GroundLogic
