import GroundLogic.Environment
import GroundLogic.Rule

/-!
# Occurrence of variables

`x.Over admitted` says that every variable that occurs in `x` is admitted.  For an environment
these are the variables that it binds; for a rule they are the captured ones, directly or through
the rules that it may call.  Most often the admitted variables are those created so far, that is,
those with a number below a bound.
-/

namespace GroundLogic

variable {admitted wider : Variable → Prop}

/-- A term is a value, a wildcard or an admitted variable. -/
def Term.Over (admitted : Variable → Prop) (term : Term) : Prop :=
  ∀ unknown, term = .var unknown → admitted unknown

def Pattern.Over (admitted : Variable → Prop) (pattern : Pattern) : Prop :=
  ∀ term ∈ pattern, Term.Over admitted term

def Environment.Over (admitted : Variable → Prop) (env : Environment) : Prop :=
  ∀ unknown value, env.get? unknown = some value → admitted unknown

inductive Rule.Over (admitted : Variable → Prop) : Rule → Prop
  | intro {rule : Rule}
      (captured : ∀ unknown ∈ rule.captured, admitted unknown)
      (rules : ∀ known ∈ rule.rules, Rule.Over admitted known) :
      Rule.Over admitted rule

def Goal.Over (admitted : Variable → Prop) : Goal → Prop
  | .fact _ pattern => Pattern.Over admitted pattern
  | .conj left right => Goal.Over admitted left ∧ Goal.Over admitted right
  | .disj left right => Goal.Over admitted left ∧ Goal.Over admitted right
  | .call rule arguments => rule.Over admitted ∧ Pattern.Over admitted arguments

/-- All variables that a rule captures have numbers below a bound. -/
abbrev Rule.Below (bound : Nat) (rule : Rule) : Prop :=
  rule.Over fun unknown => unknown.id < bound

abbrev Goal.Below (bound : Nat) (goal : Goal) : Prop :=
  Goal.Over (fun unknown => unknown.id < bound) goal

abbrev Environment.Below (bound : Nat) (env : Environment) : Prop :=
  env.Over fun unknown => unknown.id < bound

theorem Rule.Over.of_captured {rule : Rule} (isOver : rule.Over admitted) :
    ∀ unknown ∈ rule.captured, admitted unknown := by
  cases isOver with
  | intro captured _ => exact captured

theorem Rule.Over.of_rules {rule : Rule} (isOver : rule.Over admitted) :
    ∀ known ∈ rule.rules, known.Over admitted := by
  cases isOver with
  | intro _ rules => exact rules

/-! ## More may be admitted -/

theorem Pattern.Over.mono {pattern : Pattern} (isOver : Pattern.Over admitted pattern)
    (more : ∀ unknown, admitted unknown → wider unknown) : Pattern.Over wider pattern :=
  fun term member unknown equality => more unknown (isOver term member unknown equality)

theorem Environment.Over.mono {env : Environment} (isOver : env.Over admitted)
    (more : ∀ unknown, admitted unknown → wider unknown) : env.Over wider :=
  fun unknown value found => more unknown (isOver unknown value found)

theorem Rule.Over.mono {rule : Rule} (isOver : rule.Over admitted)
    (more : ∀ unknown, admitted unknown → wider unknown) : rule.Over wider := by
  induction isOver with
  | intro captured _ inductionHypothesis =>
      exact .intro (fun unknown member => more unknown (captured unknown member))
        inductionHypothesis

theorem Goal.Over.mono {goal : Goal} (isOver : Goal.Over admitted goal)
    (more : ∀ unknown, admitted unknown → wider unknown) : Goal.Over wider goal := by
  induction goal with
  | fact relation pattern => exact Pattern.Over.mono isOver more
  | conj left right leftHypothesis rightHypothesis =>
      exact ⟨leftHypothesis isOver.1, rightHypothesis isOver.2⟩
  | disj left right leftHypothesis rightHypothesis =>
      exact ⟨leftHypothesis isOver.1, rightHypothesis isOver.2⟩
  | call rule arguments => exact ⟨isOver.1.mono more, isOver.2.mono more⟩

/-! ## What is written -/

theorem Pattern.over_append {first second : Pattern} :
    Pattern.Over admitted (first ++ second) ↔
      Pattern.Over admitted first ∧ Pattern.Over admitted second :=
  List.forall_mem_append

theorem Pattern.over_unknowns (pattern : Pattern) :
    Pattern.Over (· ∈ pattern.unknowns) pattern := by
  intro term member unknown written
  rw [written] at member
  exact Pattern.mem_unknowns.2 member

theorem Pattern.over_of_unknowns {pattern : Pattern}
    (listed : ∀ unknown ∈ pattern.unknowns, admitted unknown) : Pattern.Over admitted pattern :=
  (Pattern.over_unknowns pattern).mono listed

/-- The variables of a goal include those that are written as arguments of its facts and calls. -/
theorem Goal.Over.arguments {goal : Goal} (isOver : Goal.Over admitted goal) :
    Pattern.Over admitted (Formula.arguments goal) := by
  induction goal with
  | fact relation pattern => exact isOver
  | conj left right leftHypothesis rightHypothesis =>
      exact Pattern.over_append.2 ⟨leftHypothesis isOver.1, rightHypothesis isOver.2⟩
  | disj left right leftHypothesis rightHypothesis =>
      exact Pattern.over_append.2 ⟨leftHypothesis isOver.1, rightHypothesis isOver.2⟩
  | call rule arguments => exact isOver.2

/-! ## Two conditions at once -/

section Both

variable {first second : Variable → Prop}

theorem Pattern.Over.and {pattern : Pattern} (firstOver : Pattern.Over first pattern)
    (secondOver : Pattern.Over second pattern) :
    Pattern.Over (fun unknown => first unknown ∧ second unknown) pattern :=
  fun term member unknown equality =>
    ⟨firstOver term member unknown equality, secondOver term member unknown equality⟩

theorem Environment.Over.and {env : Environment} (firstOver : env.Over first)
    (secondOver : env.Over second) : env.Over fun unknown => first unknown ∧ second unknown :=
  fun unknown value found => ⟨firstOver unknown value found, secondOver unknown value found⟩

theorem Rule.Over.and {rule : Rule} (firstOver : rule.Over first)
    (secondOver : rule.Over second) : rule.Over fun unknown => first unknown ∧ second unknown := by
  induction firstOver with
  | intro captured rules inductionHypothesis =>
      refine .intro ?_ ?_
      · intro unknown member
        exact ⟨captured unknown member, secondOver.of_captured unknown member⟩
      · intro known member
        exact inductionHypothesis known member (secondOver.of_rules known member)

theorem Goal.Over.and {goal : Goal} (firstOver : Goal.Over first goal)
    (secondOver : Goal.Over second goal) :
    Goal.Over (fun unknown => first unknown ∧ second unknown) goal := by
  induction goal with
  | fact relation pattern => exact Pattern.Over.and firstOver secondOver
  | conj left right leftHypothesis rightHypothesis =>
      exact ⟨leftHypothesis firstOver.1 secondOver.1, rightHypothesis firstOver.2 secondOver.2⟩
  | disj left right leftHypothesis rightHypothesis =>
      exact ⟨leftHypothesis firstOver.1 secondOver.1, rightHypothesis firstOver.2 secondOver.2⟩
  | call rule arguments => exact ⟨firstOver.1.and secondOver.1, firstOver.2.and secondOver.2⟩

end Both

/-! ## Everything stays below some bound -/

/-- A property of rules holds of all rules when it holds of each rule whose captured rules all have
it. -/
theorem Rule.inductionOn {motive : Rule → Prop}
    (step : ∀ rule : Rule, (∀ known ∈ rule.rules, motive known) → motive rule) :
    ∀ rule, motive rule
  | ⟨template, captured, rules⟩ =>
      step ⟨template, captured, rules⟩ fun known _ => Rule.inductionOn step known

private theorem exists_bound_of_forall {Item : Type} (holds : Nat → Item → Prop)
    (items : List Item)
    (upward : ∀ item smaller larger, smaller ≤ larger → holds smaller item → holds larger item)
    (each : ∀ item ∈ items, ∃ bound, holds bound item) :
    ∃ bound, ∀ item ∈ items, holds bound item := by
  induction items with
  | nil => exact ⟨0, fun item member => absurd member List.not_mem_nil⟩
  | cons head tail inductionHypothesis =>
      obtain ⟨headBound, headHolds⟩ := each head (List.mem_cons_self ..)
      obtain ⟨tailBound, tailHolds⟩ :=
        inductionHypothesis fun item member => each item (List.mem_cons_of_mem head member)
      refine ⟨max headBound tailBound, fun item member => ?_⟩
      rcases List.mem_cons.1 member with rfl | inTail
      · exact upward item headBound _ (Nat.le_max_left ..) headHolds
      · exact upward item tailBound _ (Nat.le_max_right ..) (tailHolds item inTail)

theorem Rule.exists_below (rule : Rule) : ∃ bound, rule.Below bound := by
  induction rule using Rule.inductionOn with
  | step rule inductionHypothesis =>
      obtain ⟨rulesBound, rulesBelow⟩ :=
        exists_bound_of_forall Rule.Below rule.rules
          (fun _ smaller larger order below =>
            below.mono fun _ small => Nat.lt_of_lt_of_le small order)
          inductionHypothesis
      obtain ⟨capturedBound, capturedBelow⟩ :=
        exists_bound_of_forall (fun bound (unknown : Variable) => unknown.id < bound)
          rule.captured
          (fun _ smaller larger order small => Nat.lt_of_lt_of_le small order)
          (fun unknown _ => ⟨unknown.id + 1, Nat.lt_succ_self _⟩)
      refine ⟨max rulesBound capturedBound, .intro ?_ ?_⟩
      · intro unknown member
        exact Nat.lt_of_lt_of_le (capturedBelow unknown member) (Nat.le_max_right ..)
      · intro known member
        exact (rulesBelow known member).mono fun _ small =>
          Nat.lt_of_lt_of_le small (Nat.le_max_left ..)

theorem Pattern.exists_below (pattern : Pattern) :
    ∃ bound, Pattern.Over (fun unknown => unknown.id < bound) pattern := by
  refine exists_bound_of_forall (fun bound => Term.Over fun unknown => unknown.id < bound) pattern
    (fun _ smaller larger order isOver unknown equality =>
      Nat.lt_of_lt_of_le (isOver unknown equality) order)
    (fun term _ => ?_)
  cases term with
  | var unknown =>
      refine ⟨unknown.id + 1, fun other equality => ?_⟩
      cases equality
      exact Nat.lt_succ_self _
  | value constant => exact ⟨0, nofun⟩
  | wildcard => exact ⟨0, nofun⟩

theorem Environment.exists_below (env : Environment) : ∃ bound, env.Below bound := by
  obtain ⟨bound, bindingsBelow⟩ :=
    exists_bound_of_forall (fun bound (binding : Variable × Value) => binding.1.id < bound)
      env.bindings
      (fun _ smaller larger order small => Nat.lt_of_lt_of_le small order)
      (fun binding _ => ⟨binding.1.id + 1, Nat.lt_succ_self _⟩)
  exact ⟨bound, fun unknown value found =>
    bindingsBelow (unknown, value) (get?_eq_some_iff.1 found)⟩

end GroundLogic
