import GroundLogic.Rule.Definition
import GroundLogic.Goal.Meaning

/-!
# The rules that a goal reaches

Validation looks at a goal only; the bodies of the rules that it calls were validated when these
rules were defined.  Together this means that every call met in a search has the right number of
arguments, however often bodies are built (`WellDefined.body`).
-/

namespace GroundLogic

/-- The rule has been defined, somewhere. -/
def Rule.Accepted (rule : Rule) : Prop :=
  ∃ before after : State, rule.define before = (.ok rule, after)

namespace Goal

/-- Every call has the number of arguments of its rule. -/
def Fits : Goal → Prop
  | .fact _ _ => True
  | .conj left right => Fits left ∧ Fits right
  | .disj left right => Fits left ∧ Fits right
  | .call rule arguments => arguments.length = rule.arity

/-- The rules called in a goal, in a body of one of these, and so on. -/
inductive Reaches (goal : Goal) : Rule → Prop
  | callee {rule : Rule} (member : rule ∈ Formula.callees goal) : Reaches goal rule
  | body {rule inner : Rule} {base : Nat} (outer : Reaches goal rule) (fresh : rule.Below base)
      (member : inner ∈ Formula.callees (rule.body base)) : Reaches goal inner

/-- Calls fit, and every rule that is reached has been defined. -/
structure WellDefined (goal : Goal) : Prop where
  fits : goal.Fits
  accepted : ∀ rule, goal.Reaches rule → rule.Accepted

theorem Reaches.mono {goal other : Goal} {rule : Rule} (reaches : goal.Reaches rule)
    (callees : ∀ called ∈ Formula.callees goal, other.Reaches called) : other.Reaches rule := by
  induction reaches with
  | callee member => exact callees _ member
  | body _ fresh member outerHypothesis => exact .body outerHypothesis fresh member

theorem fits_of_check {state : State} {goal : Goal} {pending extended : PendingArities}
    (success : check state goal pending = .ok extended) : goal.Fits := by
  induction goal generalizing pending extended with
  | fact relation pattern => trivial
  | conj left right leftHypothesis rightHypothesis =>
      obtain ⟨middle, leftSuccess, rightSuccess⟩ := check_conj_iff.1 success
      exact ⟨leftHypothesis leftSuccess, rightHypothesis rightSuccess⟩
  | disj left right leftHypothesis rightHypothesis =>
      obtain ⟨middle, leftSuccess, rightSuccess⟩ := check_disj_iff.1 success
      exact ⟨leftHypothesis leftSuccess, rightHypothesis rightSuccess⟩
  | call rule arguments => exact (check_call_iff.1 success).1

theorem fits_of_validate {state validated : State} {goal : Goal}
    (success : validate goal state = .ok validated) : goal.Fits := by
  simp only [validate] at success
  split at success
  · cases success
  · next pending checked => exact fits_of_check checked

end Goal

/-! ## Bodies of defined rules -/

theorem Template.map_template_close (scope : List Variable) (templates : List Template)
    (known : List Rule) : (close scope templates known).map Rule.template = templates := by
  induction templates generalizing known with
  | nil => rfl
  | cons template rest inductionHypothesis =>
      simp only [close, List.map_cons, inductionHypothesis]

namespace Rule

/-- What a reference means is made of the same template in every build. -/
theorem template_resolve (rule : Rule) (first second : Nat) (callee : Callee) :
    (callee.resolve rule (rule.innerRules first)).template =
      (callee.resolve rule (rule.innerRules second)).template := by
  cases callee with
  | inner index =>
      have same : (rule.innerRules first)[index]?.map Rule.template =
          (rule.innerRules second)[index]?.map Rule.template := by
        rw [← List.getElem?_map, ← List.getElem?_map, innerRules, innerRules,
          Template.map_template_close, Template.map_template_close]
      simp only [Callee.resolve]
      cases found : (rule.innerRules first)[index]? <;>
        cases other : (rule.innerRules second)[index]? <;>
        simp [found, other] at same ⊢
      exact same
  | self => rfl
  | outer index => rfl

theorem fits_body {rule : Rule} {first : Nat} (fits : (rule.body first).Fits) (second : Nat) :
    (rule.body second).Fits := by
  simp only [body] at fits ⊢
  generalize rule.template.body = formula at fits ⊢
  induction formula with
  | fact relation places => trivial
  | conj left right leftHypothesis rightHypothesis =>
      exact ⟨leftHypothesis fits.1, rightHypothesis fits.2⟩
  | disj left right leftHypothesis rightHypothesis =>
      exact ⟨leftHypothesis fits.1, rightHypothesis fits.2⟩
  | call callee places =>
      simp only [Formula.map, Goal.Fits, List.length_map, arity] at fits ⊢
      rw [fits, template_resolve rule first second]

theorem Accepted.fits_body {rule : Rule} (accepted : rule.Accepted) (base : Nat) :
    (rule.body base).Fits := by
  obtain ⟨before, after, defined⟩ := accepted
  simp only [define, build] at defined
  split at defined
  · cases defined
  · next state success =>
      simp only [accept] at success
      split at success
      · cases success
      · next validated passed => exact Rule.fits_body (Goal.fits_of_validate passed) base

end Rule

namespace Goal.WellDefined

variable {left right : Goal} {rule : Rule} {arguments : Pattern}

theorem of_callees {goal other : Goal} (defined : WellDefined other) (fits : goal.Fits)
    (callees : ∀ called ∈ Formula.callees goal, other.Reaches called) : WellDefined goal :=
  ⟨fits, fun rule reaches => defined.accepted rule (reaches.mono callees)⟩

theorem of_conj (defined : WellDefined (.conj left right)) :
    WellDefined left ∧ WellDefined right :=
  ⟨defined.of_callees defined.fits.1 fun _ member => .callee (List.mem_append_left _ member),
    defined.of_callees defined.fits.2 fun _ member => .callee (List.mem_append_right _ member)⟩

theorem of_disj (defined : WellDefined (.disj left right)) :
    WellDefined left ∧ WellDefined right :=
  ⟨defined.of_callees defined.fits.1 fun _ member => .callee (List.mem_append_left _ member),
    defined.of_callees defined.fits.2 fun _ member => .callee (List.mem_append_right _ member)⟩

theorem body (defined : WellDefined (.call rule arguments)) {base : Nat}
    (fresh : rule.Below base) : WellDefined (rule.body base) := by
  have called : Reaches (.call rule arguments) rule := .callee (List.mem_cons_self ..)
  exact defined.of_callees ((defined.accepted rule called).fits_body base) fun _ member =>
    .body called fresh member

end Goal.WellDefined

/-! ## A recursive rule

The stretches of a road from `a` through `b` to `c`, and the rule that says which places can be
reached from where.
-/

namespace Routes

def stretch : Relation :=
  ⟨0, "stretch"⟩

/-- There is a route along one stretch, or along one stretch and a route from its end. -/
def template : Template where
  key := 0
  name := "route"
  arity := 2
  locals := [.named "Via" none]
  inner := []
  body :=
    .disj (.fact stretch [.slot 0, .slot 1])
      (.conj (.fact stretch [.slot 0, .slot 2]) (.call .self [.slot 2, .slot 1]))

def route : Rule :=
  ⟨template, [], []⟩

/-- The stored stretches, and one variable for the destination. -/
def road : State where
  declarations := #[.named "Destination" none]
  database :=
    ⟨[(stretch, ⟨some 2, [[.symbol "a", .symbol "b"], [.symbol "b", .symbol "c"]]⟩)]⟩
  journal := []

/-- Where one can get from `a`. -/
def onward : Goal :=
  .call route [.value (.symbol "a"), .var ⟨1⟩]

/-- The solution that leads to a place. -/
def destination (place : Value) : Environment :=
  ⟨[(⟨1⟩, place)], List.pairwise_singleton _ _⟩

theorem within_destination_iff {place : Value} {assignment : Assignment} :
    (destination place).Within assignment ↔ assignment ⟨1⟩ = place := by
  constructor
  · intro within
    exact within ⟨1⟩ place (Environment.get?_eq_some_iff.2 (List.mem_cons_self ..))
  · intro same unknown value found
    have listed := Environment.get?_eq_some_iff.1 found
    cases List.mem_singleton.1 listed
    exact same

theorem route_below (bound : Nat) : route.Below bound :=
  .intro (fun _ member => absurd member List.not_mem_nil)
    (fun _ member => absurd member List.not_mem_nil)

theorem onward_below : Goal.Below road.nextId onward :=
  ⟨route_below _, Pattern.over_of_unknowns (by decide)⟩

theorem eq_route_of_reaches {rule : Rule} (reaches : onward.Reaches rule) : rule = route := by
  induction reaches with
  | callee member => exact List.mem_singleton.1 member
  | body _ _ member outerHypothesis =>
      rw [outerHypothesis] at member
      exact List.mem_singleton.1 member

theorem accepted_of_reaches (rule : Rule) (reaches : onward.Reaches rule) : rule.Accepted := by
  rw [eq_route_of_reaches reaches]
  exact ⟨road, _, rfl⟩

end Routes

end GroundLogic
