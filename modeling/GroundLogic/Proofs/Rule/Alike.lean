import GroundLogic.Proofs.Goal.Reach
import Mathlib.Data.List.Forall2

/-!
# Rules that differ in their variables

Two builds of one rule give goals with the same relations, the same numbers of arguments and calls
to rules that are made of the same templates; only the variables differ, those that the called rules
capture among them.  Such rules and goals are called alike here.  Whatever looks at lengths, at
relations and at rules only cannot tell them apart.
-/

namespace GroundLogic

/-- The rules are made of the same templates. -/
inductive Rule.Alike : Rule → Rule → Prop
  | intro {rule other : Rule} (template : rule.template = other.template)
      (length : rule.rules.length = other.rules.length)
      (each : ∀ pair ∈ rule.rules.zip other.rules, Rule.Alike pair.1 pair.2) :
      Rule.Alike rule other

/-- The goals have the same shape, with alike rules at their calls. -/
inductive Goal.Alike : Goal → Goal → Prop
  | fact {relation : Relation} {pattern other : Pattern}
      (length : pattern.length = other.length) :
      Goal.Alike (.fact relation pattern) (.fact relation other)
  | conj {left right otherLeft otherRight : Goal}
      (first : Goal.Alike left otherLeft) (second : Goal.Alike right otherRight) :
      Goal.Alike (.conj left right) (.conj otherLeft otherRight)
  | disj {left right otherLeft otherRight : Goal}
      (first : Goal.Alike left otherLeft) (second : Goal.Alike right otherRight) :
      Goal.Alike (.disj left right) (.disj otherLeft otherRight)
  | call {rule other : Rule} {arguments others : Pattern} (rules : rule.Alike other)
      (length : arguments.length = others.length) :
      Goal.Alike (.call rule arguments) (.call other others)

namespace Rule

variable {rule other : Rule}

/-! ## Rules -/

theorem Alike.template (alike : rule.Alike other) : rule.template = other.template := by
  cases alike with
  | intro template _ _ => exact template

theorem Alike.arity (alike : rule.Alike other) : rule.arity = other.arity :=
  congrArg Template.arity alike.template

theorem Alike.rules (alike : rule.Alike other) :
    List.Forall₂ Alike rule.rules other.rules := by
  cases alike with
  | intro _ length each => exact List.forall₂_iff_zip.2 ⟨length, fun member => each _ member⟩

theorem alike_of_forall₂ (template : rule.template = other.template)
    (rules : List.Forall₂ Alike rule.rules other.rules) : rule.Alike other := by
  obtain ⟨length, each⟩ := List.forall₂_iff_zip.1 rules
  exact .intro template length fun pair member => each member

theorem Alike.refl (rule : Rule) : rule.Alike rule := by
  induction rule using Rule.inductionOn with
  | step rule inductionHypothesis =>
      exact alike_of_forall₂ rfl (List.forall₂_same.2 inductionHypothesis)

/-! ## Bodies -/

/-- The rules inside a body are alike in every build. -/
theorem alike_close (first second : List Variable) (templates : List Template)
    {known others : List Rule} (alike : List.Forall₂ Alike known others) :
    List.Forall₂ Alike (Template.close first templates known)
      (Template.close second templates others) := by
  induction templates generalizing known others with
  | nil => exact .nil
  | cons template rest inductionHypothesis =>
      have here : Alike ⟨template, first, known⟩ ⟨template, second, others⟩ :=
        alike_of_forall₂ rfl alike
      exact .cons here (inductionHypothesis (.cons here alike))

theorem Alike.innerRules (alike : rule.Alike other) (first second : Nat) :
    List.Forall₂ Alike (rule.innerRules first) (other.innerRules second) := by
  simp only [Rule.innerRules, alike.template]
  exact alike_close _ _ _ (.cons alike alike.rules)

private theorem alike_getD {known others : List Rule} (alike : List.Forall₂ Alike known others)
    (index : Nat) (default : rule.Alike other) :
    (known[index]?.getD rule).Alike (others[index]?.getD other) := by
  induction alike generalizing index with
  | nil => exact default
  | cons here _ inductionHypothesis =>
      cases index with
      | zero => exact here
      | succ index =>
          simp only [List.getElem?_cons_succ]
          exact inductionHypothesis index

/-- A reference means alike rules in every build. -/
theorem Alike.resolve (alike : rule.Alike other) (first second : Nat) (callee : Callee) :
    (callee.resolve rule (rule.innerRules first)).Alike
      (callee.resolve other (other.innerRules second)) := by
  cases callee with
  | inner index => exact alike_getD (alike.innerRules first second) index alike
  | self => exact alike
  | outer index => exact alike_getD alike.rules index alike

/-- The bodies of alike rules are alike, wherever they are built. -/
theorem Alike.body (alike : rule.Alike other) (first second : Nat) :
    Goal.Alike (rule.body first) (other.body second) := by
  have sameBody : other.template.body = rule.template.body := by rw [alike.template]
  simp only [Rule.body, sameBody]
  generalize rule.template.body = formula
  induction formula with
  | fact relation places => exact .fact (by simp only [List.length_map])
  | conj left right leftHypothesis rightHypothesis => exact .conj leftHypothesis rightHypothesis
  | disj left right leftHypothesis rightHypothesis => exact .disj leftHypothesis rightHypothesis
  | call callee places =>
      exact .call (alike.resolve first second callee) (by simp only [List.length_map])

end Rule

/-! ## Goals -/

namespace Goal

variable {goal other : Goal}

/-- The check looks at lengths, relations and arities only. -/
theorem Alike.check_eq (alike : goal.Alike other) (state : State) (pending : PendingArities) :
    check state goal pending = check state other pending := by
  induction alike generalizing pending with
  | fact length => simp only [check, length]
  | conj _ _ firstHypothesis secondHypothesis =>
      simp only [check, firstHypothesis, secondHypothesis]
  | disj _ _ firstHypothesis secondHypothesis =>
      simp only [check, firstHypothesis, secondHypothesis]
  | call rules length =>
      simp only [check, Rule.checkArity, length, rules.arity, Rule.name, rules.template]

/-- Alike goals are valid in the same states, and their validation has the same effect. -/
theorem Alike.validate_eq (alike : goal.Alike other) (state : State) :
    validate goal state = validate other state := by
  simp only [validate, alike.check_eq]

end Goal

end GroundLogic
