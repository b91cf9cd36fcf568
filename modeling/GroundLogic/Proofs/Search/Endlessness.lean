import GroundLogic.Proofs.Search.Steps

/-!
# Searches without end

A rule is left recursive when its body comes to a call of the rule itself before anything else has
to succeed.  However much the rest of the body finds on the way, the search of such a call never
ends: after every step it still contains one that has to be gone through (`Endless.step`), so no
pull reports the end (`Endless.pull`).
-/

namespace GroundLogic

/-! ## Unguarded calls -/

/-- The formula calls this rule in a position that its evaluation is bound to reach: at the very
beginning of a conjunction, or in either branch of a disjunction. -/
inductive Formula.Unguarded {Argument Reference : Type} (callee : Reference) :
    Formula Argument Reference → Prop
  | call {arguments : List Argument} : Unguarded callee (.call callee arguments)
  | conj {left right : Formula Argument Reference} (first : Unguarded callee left) :
      Unguarded callee (.conj left right)
  | disjLeft {left right : Formula Argument Reference} (first : Unguarded callee left) :
      Unguarded callee (.disj left right)
  | disjRight {left right : Formula Argument Reference} (second : Unguarded callee right) :
      Unguarded callee (.disj left right)

theorem Formula.Unguarded.map {Argument Reference NewArgument NewReference : Type}
    {callee : Reference} {formula : Formula Argument Reference}
    (unguarded : formula.Unguarded callee)
    (fill : Argument → NewArgument) (resolve : Reference → NewReference) :
    (formula.map fill resolve).Unguarded (resolve callee) := by
  induction unguarded with
  | call => exact .call
  | conj _ inductionHypothesis => exact .conj inductionHypothesis
  | disjLeft _ inductionHypothesis => exact .disjLeft inductionHypothesis
  | disjRight _ inductionHypothesis => exact .disjRight inductionHypothesis

/-- On every build, the body calls the rule itself in an unguarded position. -/
def Rule.LeftRecursive (rule : Rule) : Prop :=
  ∀ base, Formula.Unguarded rule (rule.body base)

/-- It shows in the template. -/
theorem Rule.leftRecursive_of_template {rule : Rule}
    (unguarded : rule.template.body.Unguarded .self) : rule.LeftRecursive :=
  fun base => unguarded.map (Place.fill (rule.scope base))
    (Callee.resolve rule (rule.innerRules base))

/-! ## The search never ends -/

namespace Search

/-- Somewhere the search has to go through a call of the rule, whatever else it does before. -/
inductive Endless (rule : Rule) : Search → Prop
  | call {arguments : Pattern} {env : Environment} : Endless rule (.call rule arguments env)
  | returning {body : Search} {arguments : Pattern} {parameters : List Variable}
      {env : Environment} (inside : Endless rule body) :
      Endless rule (.returning body arguments parameters env)
  | join {current left : Search} {right : Goal} (first : Endless rule left) :
      Endless rule (.join current left right)
  | left {left : Search} {right : Goal} {env : Environment} (first : Endless rule left) :
      Endless rule (.alternative left right env)
  | right {left : Search} {right : Goal} {env : Environment}
      (second : Formula.Unguarded rule right) : Endless rule (.alternative left right env)

variable {rule : Rule} {search : Search}

theorem endless_start {goal : Goal} (unguarded : Formula.Unguarded rule goal) (env : Environment)
    (database : Database) : Endless rule (Goal.start goal env database) := by
  induction unguarded with
  | call => exact .call
  | conj _ inductionHypothesis => exact .join inductionHypothesis
  | disjLeft _ inductionHypothesis => exact .left inductionHypothesis
  | disjRight second _ => exact .right second

/-- The step is not the last one, and what is left is still without end. -/
def GoesOn (rule : Rule) : Step → Prop
  | .answer _ rest => rest.Endless rule
  | .silent rest => rest.Endless rule
  | .finished => False

variable {current left body : Search} {right : Goal} {arguments : Pattern}
  {parameters : List Variable} {env : Environment}

/-- The right goal of a conjunction may be gone through any number of times; then the left one has
to go on. -/
private theorem goesOn_join {state : State}
    (first : Endless rule left) (leftStep : ∀ state, GoesOn rule (left.step state).1) :
    GoesOn rule ((Search.join current left right).step state).1 := by
  rcases currentStep : current.step state with ⟨found | rest | _, after⟩
  · simp only [step, currentStep]
    exact .join first
  · simp only [step, currentStep]
    exact .join first
  · have next := leftStep after
    rcases stepped : left.step after with ⟨found | rest | _, later⟩ <;> rw [stepped] at next <;>
      simp only [step, currentStep, stepped]
    · exact .join next
    · exact .join next
    · exact next

private theorem goesOn_returning {state : State} (bodyStep : GoesOn rule (body.step state).1) :
    GoesOn rule ((Search.returning body arguments parameters env).step state).1 := by
  rcases stepped : body.step state with ⟨found | rest | _, after⟩ <;> rw [stepped] at bodyStep
  · cases returned : Pattern.bindBack found arguments parameters env with
    | none =>
        rw [step_returning_of_none stepped returned]
        exact .returning bodyStep
    | some extended =>
        rw [step_returning_of_some stepped returned]
        exact .returning bodyStep
  · simp only [step, stepped]
    exact .returning bodyStep
  · exact bodyStep.elim

/-- Every step leads to a search of the same kind: a call leads to its body, which calls the rule
again. -/
theorem Endless.step (endless : search.Endless rule) (recursive : rule.LeftRecursive)
    (state : State) : GoesOn rule (search.step state).1 := by
  induction endless generalizing state with
  | @call arguments env =>
      rw [step_call]
      exact .returning (endless_start (recursive state.nextId) _ _)
  | returning _ insideHypothesis => exact goesOn_returning (insideHypothesis state)
  | join first firstHypothesis => exact goesOn_join first firstHypothesis
  | @left left right env _ firstHypothesis =>
      have next := firstHypothesis state
      rcases stepped : left.step state with ⟨found | rest | _, after⟩ <;>
        rw [stepped] at next <;> simp only [Search.step, stepped]
      · exact .left next
      · exact .left next
      · exact next.elim
  | @right left right env second =>
      rcases stepped : left.step state with ⟨found | rest | _, after⟩ <;>
        simp only [Search.step, stepped]
      · exact .right second
      · exact .right second
      · exact endless_start second env after.database

/-- However many steps a pull may take, it does not come to the end. -/
theorem Endless.pull (endless : search.Endless rule) (recursive : rule.LeftRecursive)
    (fuel : Nat) (state : State) :
    (search.pull fuel state).1 ≠ .ended ∧ (search.pull fuel state).2.1.Endless rule := by
  induction fuel generalizing search state with
  | zero => exact ⟨(fun ended => by cases ended), endless⟩
  | succ fuel inductionHypothesis =>
      have next := endless.step recursive state
      rw [Search.pull]
      rcases stepped : search.step state with ⟨found | rest | _, after⟩ <;> rw [stepped] at next
      · exact ⟨(fun ended => by cases ended), next⟩
      · exact inductionHypothesis next after
      · exact next.elim

end Search

end GroundLogic
