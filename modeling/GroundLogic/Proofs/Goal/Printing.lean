import GroundLogic.Proofs.Goal.Reach
import GroundLogic.Proofs.Text.Outline
import Mathlib.Tactic.MkIffOfInductiveProp

/-!
# What the text of a goal tells

When no name and no symbol holds one of the marks `(`, `)`, `&` and `|` (`Goal.Legible`), the text
of a goal tells everything about how it is put together except the grouping of its conjunctions
(`Goal.text_unambiguous`).  Of a fact or a call it tells what is written there and no more:
different variables may have the same name, and a relation may be called like a rule.
-/

namespace GroundLogic

/-! ## Texts without marks -/

namespace Text

-- Only the characters of the text are tried; characters are finitely many, and a search for the
-- instance may come up with trying them all.
instance (text : String) : Decidable (Plain text) :=
  List.decidableBAll (· ∉ marks) text.toList

theorem plain_commaSeparated {items : List String} (plain : ∀ item ∈ items, Plain item) :
    Plain (commaSeparated items) := by
  induction items with
  | nil => decide
  | cons item rest inductionHypothesis =>
      have both := List.forall_mem_cons.1 plain
      cases rest with
      | nil => exact both.1
      | cons next others =>
          have comma : Plain ", " := by decide
          exact plain_append (plain_append both.1 comma) (inductionHypothesis both.2)

theorem plain_natural (number : Nat) : Plain number.repr := by
  intro letter member isMark
  rw [Nat.toList_repr] at member
  have digit := Nat.isDigit_of_mem_toDigits (by decide) (by decide) member
  have noDigit : ∀ mark ∈ marks, mark.isDigit = false := by simp [marks]
  rw [noDigit letter isMark] at digit
  cases digit

theorem plain_integer (number : Int) : Plain (toString number) := by
  cases number with
  | ofNat size => exact plain_natural size
  | negSucc size =>
      have sign : Plain "-" := by decide
      exact plain_append sign (plain_natural (size + 1))

end Text

namespace Goal

/-- No name of a relation, a rule or a variable and no symbol in the goal holds a mark. -/
@[mk_iff]
structure Legible (names : Naming) (goal : Goal) : Prop where
  relations : ∀ relation ∈ Formula.relations goal, Text.Plain relation.name
  rules : ∀ rule ∈ Formula.callees goal, Text.Plain rule.name
  unknowns : ∀ unknown ∈ goal.unknowns, Text.Plain (names unknown)
  symbols : ∀ name, Term.value (.symbol name) ∈ Formula.arguments goal → Text.Plain name

/-- The goal with nothing but the texts of its facts and calls. -/
def outline (names : Naming) : Goal → Outline
  | .fact relation pattern => .atom (Pattern.text names relation.name pattern)
  | .conj left right => .conj (outline names left) (outline names right)
  | .disj left right => .disj (outline names left) (outline names right)
  | .call rule arguments => .atom (Pattern.text names rule.name arguments)

theorem text_outline (names : Naming) (goal : Goal) :
    (outline names goal).text = text names goal := by
  induction goal with
  | fact relation pattern => rfl
  | call rule arguments => rfl
  | conj left right leftHypothesis rightHypothesis =>
      simp only [outline, Outline.text, leftHypothesis, rightHypothesis]
      rfl
  | disj left right leftHypothesis rightHypothesis =>
      simp only [outline, Outline.text, leftHypothesis, rightHypothesis]
      rfl

/-! ## Legible goals -/

section Legible

variable {names : Naming}

theorem application_of_plain {name : String} {pattern : Pattern} (plainName : Text.Plain name)
    (unknowns : ∀ unknown ∈ pattern.unknowns, Text.Plain (names unknown))
    (symbols : ∀ symbol, Term.value (.symbol symbol) ∈ pattern → Text.Plain symbol) :
    Text.Application (pattern.text names name) := by
  refine .intro plainName (Text.plain_commaSeparated fun item member => ?_)
  obtain ⟨term, listed, rfl⟩ := List.mem_map.1 member
  cases term with
  | wildcard =>
      have underscore : Text.Plain "_" := by decide
      exact underscore
  | var unknown => exact unknowns unknown (Pattern.mem_unknowns.2 listed)
  | value constant =>
      cases constant with
      | symbol symbol => exact symbols symbol listed
      | int number => exact Text.plain_integer number.toInt
      | bool truth =>
          have both : ∀ truth, Text.Plain (Value.text (.bool truth)) := by decide
          exact both truth

/-- A goal that holds what two others hold is legible just when both are. -/
theorem legible_of_append {goal left right : Goal}
    (relations : Formula.relations goal = Formula.relations left ++ Formula.relations right)
    (callees : Formula.callees goal = Formula.callees left ++ Formula.callees right)
    (arguments : Formula.arguments goal = Formula.arguments left ++ Formula.arguments right) :
    goal.Legible names ↔ left.Legible names ∧ right.Legible names := by
  have unknowns : goal.unknowns = left.unknowns ++ right.unknowns := by
    rw [Goal.unknowns, arguments]
    exact List.filterMap_append
  simp only [legible_iff, relations, callees, arguments, unknowns, List.mem_append, or_imp,
    forall_and]
  tauto

theorem legible_conj {left right : Goal} :
    Legible names (.conj left right) ↔ left.Legible names ∧ right.Legible names :=
  legible_of_append rfl rfl rfl

theorem legible_disj {left right : Goal} :
    Legible names (.disj left right) ↔ left.Legible names ∧ right.Legible names :=
  legible_of_append rfl rfl rfl

theorem Legible.outline {goal : Goal} (legible : goal.Legible names) :
    (goal.outline names).Legible := by
  induction goal with
  | fact relation pattern =>
      intro written member
      cases List.mem_singleton.1 member
      exact application_of_plain (legible.relations relation List.mem_cons_self)
        legible.unknowns legible.symbols
  | call rule arguments =>
      intro written member
      cases List.mem_singleton.1 member
      exact application_of_plain (legible.rules rule List.mem_cons_self)
        legible.unknowns legible.symbols
  | conj left right leftHypothesis rightHypothesis =>
      have both := legible_conj.1 legible
      exact Outline.legible_conj.2 ⟨leftHypothesis both.1, rightHypothesis both.2⟩
  | disj left right leftHypothesis rightHypothesis =>
      have both := legible_disj.1 legible
      exact Outline.legible_disj.2 ⟨leftHypothesis both.1, rightHypothesis both.2⟩

end Legible

/-! ## The text of a goal -/

/-- Goals that are written alike have the same outline once their conjunctions are grouped alike. -/
theorem grouped_eq {names : Naming} (first second : Goal)
    (firstLegible : (first.outline names).Legible) (secondLegible : (second.outline names).Legible)
    (same : text names first = text names second) :
    (first.outline names).grouped = (second.outline names).grouped := by
  rw [← text_outline, ← text_outline] at same
  exact firstLegible.grouped_eq secondLegible same

/-- Two legible goals are written alike just when they are the same up to the grouping of
conjunctions and up to facts and calls that are written alike.  So a conjunction is never taken for
a disjunction, whether the one holds disjunctions or the other one conjunctions, and of three
disjuncts it shows which two belong together. -/
theorem text_unambiguous {names : Naming} {first second : Goal}
    (firstLegible : first.Legible names) (secondLegible : second.Legible names) :
    (text names first = text names second ↔
      (first.outline names).Reassociates (second.outline names)) ∧
    ∀ third fourth : Goal, third.Legible names → fourth.Legible names →
      text names (.conj first second) ≠ text names (.disj third fourth) ∧
      text names (.disj (.disj first second) third) ≠
        text names (.disj first (.disj second third)) := by
  have firstOutline := firstLegible.outline
  have secondOutline := secondLegible.outline
  constructor
  · rw [← text_outline, ← text_outline]
    exact Outline.text_eq_iff firstOutline secondOutline
  · intro third fourth thirdLegible fourthLegible
    have thirdOutline := thirdLegible.outline
    constructor
    · intro same
      have conjunction := Outline.legible_conj.2 ⟨firstOutline, secondOutline⟩
      have disjunction := Outline.legible_disj.2 ⟨thirdOutline, fourthLegible.outline⟩
      have alike :=
        grouped_eq (.conj first second) (.disj third fourth) conjunction disjunction same
      exact Outline.join_ne_disj _ _ _ _ alike
    · intro same
      have early := Outline.legible_disj.2 ⟨firstOutline, secondOutline⟩
      have late := Outline.legible_disj.2 ⟨secondOutline, thirdOutline⟩
      have alike := grouped_eq (.disj (.disj first second) third) (.disj first (.disj second third))
        (Outline.legible_disj.2 ⟨early, thirdOutline⟩)
        (Outline.legible_disj.2 ⟨firstOutline, late⟩) same
      -- The first disjunct would be a part of itself.
      injection alike with nested _
      have sizes := congrArg sizeOf nested
      simp only [outline, Outline.grouped, Outline.disj.sizeOf_spec] at sizes
      omega

end Goal

namespace Routes

/-- There is a stretch that ends at `a`. -/
def back : Goal :=
  .fact stretch [.wildcard, .value (.symbol "a")]

theorem legible_back : back.Legible road.names where
  relations := by decide
  rules := by decide
  unknowns := by decide
  symbols symbol member := by
    simp only [back, Formula.arguments, List.mem_cons, reduceCtorEq, Term.value.injEq,
      Value.symbol.injEq, List.not_mem_nil, or_false, false_or] at member
    rw [member]
    decide

theorem legible_onward : onward.Legible road.names where
  relations := by decide
  rules := by decide
  unknowns := by decide
  symbols symbol member := by
    simp only [onward, Formula.arguments, List.mem_cons, reduceCtorEq, Term.value.injEq,
      Value.symbol.injEq, List.not_mem_nil, or_false] at member
    rw [member]
    decide

end Routes

open Routes in
/-- From `a` on and from somewhere back to it: three conjuncts may be grouped either way, and a
disjunction is told from a conjunction and from a disjunction that is grouped in another way. -/
theorem Goal.text_unambiguous_back :
    back.Legible road.names ∧ onward.Legible road.names ∧
    text road.names (.conj back (.disj onward back)) =
      "stretch(_, a) & (route(a, Destination) | stretch(_, a))" ∧
    text road.names (.conj (.conj back onward) back) =
      text road.names (.conj back (.conj onward back)) ∧
    text road.names (.conj back (.disj onward back)) ≠
      text road.names (.disj (.conj back onward) back) ∧
    text road.names (.disj (.disj back onward) back) ≠
      text road.names (.disj back (.disj onward back)) := by
  have pair := legible_conj.2 ⟨legible_back, legible_onward⟩
  have leftGrouped := legible_conj.2 ⟨pair, legible_back⟩
  have rightGrouped :=
    legible_conj.2 ⟨legible_back, legible_conj.2 ⟨legible_onward, legible_back⟩⟩
  have either := legible_disj.2 ⟨legible_onward, legible_back⟩
  have grouping := (text_unambiguous leftGrouped rightGrouped).1
  have kinds := (text_unambiguous legible_back either).2 _ back pair legible_back
  have disjuncts := (text_unambiguous legible_back legible_onward).2 back back legible_back
    legible_back
  exact ⟨legible_back, legible_onward, rfl, grouping.2 (.assoc ..), kinds.1, disjuncts.2⟩

end GroundLogic
