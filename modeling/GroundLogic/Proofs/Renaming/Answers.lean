import GroundLogic.Proofs.Renaming.Searches
import GroundLogic.Query

/-!
# What answers show

The answers of a search extend the environment that it was started with, and bind only variables of
that environment and of the goal: variables that a called body creates stay inside
(`exposes_of_pull`).  The answers to a query show none of its variables at all.  So a renaming of
the variables made during a search cannot be seen from outside.
-/

namespace GroundLogic

variable {admitted : Variable → Prop} {base env : Environment}

/-- The environment has grown out of another one and binds admitted variables only. -/
structure Environment.Grown (env base : Environment) (admitted : Variable → Prop) : Prop where
  extension : env.Extends base
  isOver : env.Over admitted

/-- A variable that the environment binds or that is seen. -/
def Environment.BoundOr (env : Environment) (seen : Variable → Prop) (unknown : Variable) : Prop :=
  (∃ value, env.get? unknown = some value) ∨ seen unknown

namespace Environment.Grown

variable {pattern narrowed arguments : Pattern} {answer extended : Environment}
  {tuples rest : List Tuple} {parameters : List Variable}

theorem nextMatch (grown : env.Grown base admitted) (patternOver : Pattern.Over admitted pattern)
    (found : Pattern.nextMatch pattern narrowed env tuples = some (extended, rest)) :
    extended.Grown base admitted :=
  ⟨(Pattern.extends_of_nextMatch found).trans grown.extension,
    Pattern.over_of_nextMatch patternOver grown.isOver found⟩

theorem bindBack (grown : env.Grown base admitted)
    (argumentsOver : Pattern.Over admitted arguments)
    (success : Pattern.bindBack answer arguments parameters env = some extended) :
    extended.Grown base admitted :=
  ⟨(Pattern.extends_of_bindBack success).trans grown.extension,
    Pattern.over_of_bindBack argumentsOver grown.isOver success⟩

/-- What is not seen stays as it is. -/
theorem get?_eq {seen : Variable → Prop} {solution : Environment} {unknown : Variable}
    (grown : solution.Grown env (env.BoundOr seen)) (unseen : ¬ seen unknown) :
    solution.get? unknown = env.get? unknown := by
  cases known : env.get? unknown with
  | some value => exact grown.extension unknown value known
  | none =>
      cases found : solution.get? unknown with
      | none => rfl
      | some value =>
          rcases grown.isOver unknown value found with bound | isSeen
          · obtain ⟨value, bound⟩ := bound
            cases known.symm.trans bound
          · exact absurd isSeen unseen

end Environment.Grown

namespace Search

/-- Further answers grow out of `base` and bind admitted variables only.  Of the rules that are
called nothing is asked. -/
def Exposes (base : Environment) (admitted : Variable → Prop) : Search → Prop
  | .ended => True
  | .scan pattern _ env _ => Pattern.Over admitted pattern ∧ env.Grown base admitted
  | .join current left right =>
      Exposes base admitted current ∧ Exposes base admitted left ∧
        Pattern.Over admitted (Formula.arguments right)
  | .alternative left right env =>
      Exposes base admitted left ∧ Pattern.Over admitted (Formula.arguments right) ∧
        env.Grown base admitted
  | .call _ arguments env => Pattern.Over admitted arguments ∧ env.Grown base admitted
  | .returning _ arguments _ env => Pattern.Over admitted arguments ∧ env.Grown base admitted

theorem exposes_start {goal : Goal} (goalOver : Pattern.Over admitted (Formula.arguments goal))
    (grown : env.Grown base admitted) (database : Database) :
    (goal.start env database).Exposes base admitted := by
  induction goal with
  | fact relation pattern => exact ⟨goalOver, grown⟩
  | conj left right leftHypothesis rightHypothesis =>
      obtain ⟨leftOver, rightOver⟩ := Pattern.over_append.1 goalOver
      exact ⟨trivial, leftHypothesis leftOver, rightOver⟩
  | disj left right leftHypothesis rightHypothesis =>
      obtain ⟨leftOver, rightOver⟩ := Pattern.over_append.1 goalOver
      exact ⟨leftHypothesis leftOver, rightOver, grown⟩
  | call rule arguments => exact ⟨Pattern.over_narrow goalOver, grown⟩

/-- A goal exposes nothing but its own variables and what was bound before. -/
theorem exposes_boundOr (goal : Goal) (env : Environment) (database : Database) :
    (goal.start env database).Exposes env (env.BoundOr (· ∈ goal.unknowns)) := by
  apply exposes_start
  · exact (Pattern.over_unknowns _).mono fun unknown written => Or.inr written
  · constructor
    · exact fun _ _ found => found
    · exact fun _ value found => Or.inl ⟨value, found⟩

theorem Over.exposes {search : Search} (isOver : search.Over admitted) :
    search.Exposes .empty admitted := by
  induction search with
  | ended => trivial
  | scan pattern narrowed env remaining =>
      exact ⟨isOver.1, env.extends_empty, isOver.2.2⟩
  | join current left right currentHypothesis leftHypothesis =>
      exact ⟨currentHypothesis isOver.1, leftHypothesis isOver.2.1, isOver.2.2.arguments⟩
  | alternative left right env leftHypothesis =>
      exact ⟨leftHypothesis isOver.1, isOver.2.1.arguments, env.extends_empty, isOver.2.2⟩
  | call rule arguments env => exact ⟨isOver.2.1, env.extends_empty, isOver.2.2⟩
  | returning body arguments parameters env bodyHypothesis =>
      exact ⟨isOver.2.1, env.extends_empty, isOver.2.2.2⟩

/-- A step shows what it answers and leaves a search that shows no more than before. -/
def Shows (base : Environment) (admitted : Variable → Prop) : Step → Prop
  | .answer env rest => env.Grown base admitted ∧ rest.Exposes base admitted
  | .silent rest => rest.Exposes base admitted
  | .finished => True

theorem shows_step {search : Search} (exposes : search.Exposes base admitted) (state : State) :
    Shows base admitted (search.step state).1 := by
  induction search generalizing state with
  | ended => trivial
  | scan pattern narrowed env remaining =>
      simp only [step]
      cases found : Pattern.nextMatch pattern narrowed env remaining with
      | none => trivial
      | some next => exact ⟨exposes.2.nextMatch exposes.1 found, exposes⟩
  | join current left right currentHypothesis leftHypothesis =>
      obtain ⟨currentExposes, leftExposes, rightOver⟩ := exposes
      have currentShows := currentHypothesis currentExposes state
      rcases currentStep : current.step state with ⟨_ | _ | _, after⟩ <;>
        rw [currentStep] at currentShows
      · simp only [step, currentStep]
        exact ⟨currentShows.1, currentShows.2, leftExposes, rightOver⟩
      · simp only [step, currentStep]
        exact ⟨currentShows, leftExposes, rightOver⟩
      · have leftShows := leftHypothesis leftExposes after
        rcases leftStep : left.step after with ⟨_ | _ | _, later⟩ <;>
          rw [leftStep] at leftShows <;> simp only [step, currentStep, leftStep]
        · exact ⟨exposes_start rightOver leftShows.1 _, leftShows.2, rightOver⟩
        · exact ⟨trivial, leftShows, rightOver⟩
        · trivial
  | alternative left right env leftHypothesis =>
      obtain ⟨leftExposes, rightOver, grown⟩ := exposes
      have leftShows := leftHypothesis leftExposes state
      rcases leftStep : left.step state with ⟨_ | _ | _, after⟩ <;>
        rw [leftStep] at leftShows <;> simp only [step, leftStep]
      · exact ⟨leftShows.1, leftShows.2, rightOver, grown⟩
      · exact ⟨leftShows, rightOver, grown⟩
      · exact exposes_start rightOver grown _
  | call rule arguments env =>
      rw [step_call]
      exact exposes
  | returning body arguments parameters env bodyHypothesis =>
      rcases bodyStep : body.step state with ⟨found | _ | _, after⟩
      · cases returned : Pattern.bindBack found arguments parameters env with
        | none =>
            rw [step_returning_of_none bodyStep returned]
            exact exposes
        | some extended =>
            rw [step_returning_of_some bodyStep returned]
            exact ⟨exposes.2.bindBack exposes.1 returned, exposes⟩
      · simp only [step, bodyStep]
        exact exposes
      · simp only [step, bodyStep]
        trivial

theorem exposes_of_pull (fuel : Nat) {search : Search} (exposes : search.Exposes base admitted)
    (state : State) :
    (search.pull fuel state).2.1.Exposes base admitted ∧
      ∀ env, (search.pull fuel state).1 = .found env → env.Grown base admitted := by
  induction fuel generalizing search state with
  | zero => exact ⟨exposes, fun env found => by cases found⟩
  | succ fuel inductionHypothesis =>
      have shown := shows_step exposes state
      rw [pull]
      rcases stepped : search.step state with ⟨_ | _ | _, after⟩ <;> rw [stepped] at shown
      · refine ⟨shown.2, fun env found => ?_⟩
        cases found
        exact shown.1
      · exact inductionHypothesis shown after
      · exact ⟨exposes, fun env found => by cases found⟩

theorem grown_of_take {search : Search} (exposes : search.Exposes base admitted)
    (fuel wanted : Nat) (state : State) :
    ∀ env ∈ (search.take fuel wanted state).1.answers, env.Grown base admitted := by
  induction wanted generalizing search state with
  | zero => exact fun env member => absurd member List.not_mem_nil
  | succ wanted inductionHypothesis =>
      obtain ⟨restExposes, answerGrown⟩ := exposes_of_pull fuel exposes state
      rw [take_succ]
      rcases pulled : search.pull fuel state with ⟨found | _ | _, rest, after⟩ <;>
        rw [pulled] at restExposes answerGrown
      · intro env member
        rcases List.mem_cons.1 member with rfl | later
        · exact answerGrown _ rfl
        · exact inductionHypothesis restExposes after env later
      · exact fun env member => absurd member List.not_mem_nil
      · exact fun env member => absurd member List.not_mem_nil

end Search

/-- The answers to a query are the same after renaming. -/
theorem Pattern.project_rename (mapping : Renaming) (solution : Environment) (pattern : Pattern)
    (parameters : List Variable) :
    project (solution.rename mapping) pattern (parameters.map mapping) =
      project solution pattern parameters := by
  induction pattern generalizing parameters with
  | nil => rfl
  | cons term terms inductionHypothesis =>
      cases parameters with
      | nil => cases term <;> rfl
      | cons parameter others =>
          cases term <;>
            simp only [List.map_cons, project, inductionHypothesis, Environment.get?_rename]

end GroundLogic
