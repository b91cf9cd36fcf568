import GroundLogic.Proofs.Search.Laziness
import Mathlib.Data.List.Induction

/-!
# Regrouping

How conjunctions and disjunctions are grouped cannot be observed.  Two searches that differ in the
grouping of their goals (`Search.Regrouped`) take the same kind of step with the same effect, and
differ in nothing else afterwards (`Regrouped.step`).  So they go through the same answers in the
same states, pull by pull, whether or not they come to an end (`Goal.outcomes_regroup`).
-/

namespace GroundLogic

/-! ## Searches that differ in grouping -/

namespace Search

/-- The two searches are the same up to the grouping of goals.  What stands to the right in a
conjunction or a disjunction has not been started yet, so it is compared by what starting it would
give. -/
inductive Regrouped : Search → Search → Prop
  | refl (search : Search) : Regrouped search search
  | symm {first second : Search} (regrouped : Regrouped first second) : Regrouped second first
  | trans {first second third : Search} (early : Regrouped first second)
      (late : Regrouped second third) : Regrouped first third
  | exhausted {first second : Search} (here : first.Exhausted) (there : second.Exhausted) :
      Regrouped first second
  | join {current otherCurrent left otherLeft : Search} {right otherRight : Goal}
      (currents : Regrouped current otherCurrent) (lefts : Regrouped left otherLeft)
      (rights : ∀ env database,
        Regrouped (Goal.start right env database) (Goal.start otherRight env database)) :
      Regrouped (.join current left right) (.join otherCurrent otherLeft otherRight)
  | alternative {left otherLeft : Search} {right otherRight : Goal} {env : Environment}
      (lefts : Regrouped left otherLeft)
      (rights : ∀ database,
        Regrouped (Goal.start right env database) (Goal.start otherRight env database)) :
      Regrouped (.alternative left right env) (.alternative otherLeft otherRight env)
  /-- Three conjuncts, grouped to the left and to the right. -/
  | conjuncts (current middle first : Search) (second third : Goal) :
      Regrouped (.join current (.join middle first second) third)
        (.join (.join current middle third) first (.conj second third))
  /-- Three disjuncts, grouped to the left and to the right. -/
  | disjuncts (first : Search) (second third : Goal) (env : Environment) :
      Regrouped (.alternative (.alternative first second env) third env)
        (.alternative first (.disj second third) env)
  /-- A disjunction to the left of a conjunction, and its two cases. -/
  | spread (current first : Search) (second third : Goal) (env : Environment) :
      Regrouped (.join current (.alternative first second env) third)
        (.alternative (.join current first third) (.conj second third) env)

end Search

/-- Two steps of the same kind with the same answer and the same state after them, whose remaining
searches differ in grouping only. -/
inductive Step.Regrouped : Step × State → Step × State → Prop
  | answer {env : Environment} {rest other : Search} {after : State}
      (rests : rest.Regrouped other) :
      Regrouped (.answer env rest, after) (.answer env other, after)
  | silent {rest other : Search} {after : State} (rests : rest.Regrouped other) :
      Regrouped (.silent rest, after) (.silent other, after)
  | finished {after : State} : Regrouped (.finished, after) (.finished, after)

namespace Step.Regrouped

variable {first second third : Step × State}

theorem refl (outcome : Step × State) : Step.Regrouped outcome outcome := by
  obtain ⟨step, after⟩ := outcome
  cases step with
  | answer env rest => exact .answer (.refl rest)
  | silent rest => exact .silent (.refl rest)
  | finished => exact .finished

theorem symm (regrouped : Step.Regrouped first second) : Step.Regrouped second first := by
  cases regrouped with
  | answer rests => exact .answer rests.symm
  | silent rests => exact .silent rests.symm
  | finished => exact .finished

theorem trans (early : Step.Regrouped first second) (late : Step.Regrouped second third) :
    Step.Regrouped first third := by
  cases early with
  | answer rests =>
      cases late with
      | answer others => exact .answer (rests.trans others)
  | silent rests =>
      cases late with
      | silent others => exact .silent (rests.trans others)
  | finished => exact late

end Step.Regrouped

/-! ## Steps -/

namespace Search.Regrouped

variable {current otherCurrent left otherLeft : Search} {right otherRight : Goal}
  {env : Environment} {state : State}

theorem step_exhausted {first second : Search} (here : first.Exhausted)
    (there : second.Exhausted) (state : State) :
    Step.Regrouped (first.step state) (second.step state) := by
  rw [step_of_exhausted here, step_of_exhausted there]
  exact .finished

theorem step_join
    (rights : ∀ env database,
      Regrouped (Goal.start right env database) (Goal.start otherRight env database))
    (lefts : Regrouped left otherLeft)
    (currentStep : ∀ state, Step.Regrouped (current.step state) (otherCurrent.step state))
    (leftStep : ∀ state, Step.Regrouped (left.step state) (otherLeft.step state))
    (state : State) :
    Step.Regrouped ((Search.join current left right).step state)
      ((Search.join otherCurrent otherLeft otherRight).step state) := by
  have currents := currentStep state
  generalize stepped : current.step state = outcome,
    otherStepped : otherCurrent.step state = otherOutcome at currents
  cases currents with
  | answer rests =>
      simp only [Search.step, stepped, otherStepped]
      exact .answer (.join rests lefts rights)
  | silent rests =>
      simp only [Search.step, stepped, otherStepped]
      exact .silent (.join rests lefts rights)
  | @finished after =>
      have next := leftStep after
      generalize leftStepped : left.step after = leftOutcome,
        otherLeftStepped : otherLeft.step after = otherLeftOutcome at next
      cases next with
      | answer rests =>
          simp only [Search.step, stepped, otherStepped, leftStepped, otherLeftStepped]
          exact .silent (.join (rights _ _) rests rights)
      | silent rests =>
          simp only [Search.step, stepped, otherStepped, leftStepped, otherLeftStepped]
          exact .silent (.join (.refl _) rests rights)
      | finished =>
          simp only [Search.step, stepped, otherStepped, leftStepped, otherLeftStepped]
          exact .finished

theorem step_alternative
    (rights : ∀ database,
      Regrouped (Goal.start right env database) (Goal.start otherRight env database))
    (leftStep : Step.Regrouped (left.step state) (otherLeft.step state)) :
    Step.Regrouped ((Search.alternative left right env).step state)
      ((Search.alternative otherLeft otherRight env).step state) := by
  generalize stepped : left.step state = outcome,
    otherStepped : otherLeft.step state = otherOutcome at leftStep
  cases leftStep with
  | answer rests =>
      simp only [Search.step, stepped, otherStepped]
      exact .answer (.alternative rests rights)
  | silent rests =>
      simp only [Search.step, stepped, otherStepped]
      exact .silent (.alternative rests rights)
  | finished =>
      simp only [Search.step, stepped, otherStepped]
      exact .silent (rights _)

/-- When the third conjunct is done with, both groupings ask the second one for its next answer, and
when that is done with, the first one. -/
theorem step_conjuncts (current middle first : Search) (second third : Goal) (state : State) :
    Step.Regrouped ((Search.join current (.join middle first second) third).step state)
      ((Search.join (.join current middle third) first (.conj second third)).step state) := by
  rcases currentStep : current.step state with ⟨_ | _ | _, after⟩
  · simp only [Search.step, currentStep]
    exact .answer (.conjuncts ..)
  · simp only [Search.step, currentStep]
    exact .silent (.conjuncts ..)
  · rcases middleStep : middle.step after with ⟨_ | _ | _, later⟩
    · simp only [Search.step, currentStep, middleStep]
      exact .silent (.conjuncts ..)
    · simp only [Search.step, currentStep, middleStep]
      exact .silent (.conjuncts ..)
    · rcases firstStep : first.step later with ⟨found | rest | _, last⟩
      · simp only [Search.step, currentStep, middleStep, firstStep]
        exact .silent (.conjuncts ..)
      · simp only [Search.step, currentStep, middleStep, firstStep]
        -- To the right nothing is left of the inner conjunction.
        have spent : Regrouped (.join .ended .ended third) .ended :=
          .exhausted ⟨trivial, trivial⟩ trivial
        have inner : Regrouped (.join (.join .ended .ended third) rest (.conj second third))
            (.join .ended rest (.conj second third)) :=
          .join spent (.refl rest) fun _ _ => .refl _
        exact .silent (.trans (.conjuncts ..) inner)
      · simp only [Search.step, currentStep, middleStep, firstStep]
        exact .finished

theorem step_disjuncts (first : Search) (second third : Goal) (env : Environment)
    (state : State) :
    Step.Regrouped ((Search.alternative (.alternative first second env) third env).step state)
      ((Search.alternative first (.disj second third) env).step state) := by
  rcases firstStep : first.step state with ⟨_ | _ | _, after⟩ <;>
    simp only [Search.step, firstStep]
  · exact .answer (.disjuncts ..)
  · exact .silent (.disjuncts ..)
  · exact .silent (.refl _)

/-- When the first case is done with, the second one is started in the same step on both sides. -/
theorem step_spread (current first : Search) (second third : Goal) (env : Environment)
    (state : State) :
    Step.Regrouped ((Search.join current (.alternative first second env) third).step state)
      ((Search.alternative (.join current first third) (.conj second third) env).step state) := by
  rcases currentStep : current.step state with ⟨_ | _ | _, after⟩
  · simp only [Search.step, currentStep]
    exact .answer (.spread ..)
  · simp only [Search.step, currentStep]
    exact .silent (.spread ..)
  · rcases firstStep : first.step after with ⟨_ | _ | _, later⟩ <;>
      simp only [Search.step, currentStep, firstStep]
    · exact .silent (.spread ..)
    · exact .silent (.spread ..)
    · exact .silent (.refl _)

/-- Searches that differ in grouping step together. -/
theorem step {first second : Search} (regrouped : first.Regrouped second) (state : State) :
    Step.Regrouped (first.step state) (second.step state) := by
  induction regrouped generalizing state with
  | refl search => exact .refl _
  | symm _ inductionHypothesis => exact (inductionHypothesis state).symm
  | trans _ _ earlyHypothesis lateHypothesis =>
      exact (earlyHypothesis state).trans (lateHypothesis state)
  | exhausted here there => exact step_exhausted here there state
  | join _ lefts rights currentHypothesis leftHypothesis =>
      exact step_join rights lefts currentHypothesis leftHypothesis state
  | alternative _ rights leftHypothesis => exact step_alternative rights (leftHypothesis state)
  | conjuncts current middle first second third =>
      exact step_conjuncts current middle first second third state
  | disjuncts first second third env => exact step_disjuncts first second third env state
  | spread current first second third env => exact step_spread current first second third env state

/-! ## Pulls -/

/-- A pull on both sides has the same outcome and leaves the same state. -/
theorem pull {first second : Search} (regrouped : first.Regrouped second) (fuel : Nat)
    (state : State) :
    (first.pull fuel state).1 = (second.pull fuel state).1 ∧
      (first.pull fuel state).2.1.Regrouped (second.pull fuel state).2.1 ∧
      (first.pull fuel state).2.2 = (second.pull fuel state).2.2 := by
  induction fuel generalizing first second state with
  | zero => exact ⟨rfl, regrouped, rfl⟩
  | succ fuel inductionHypothesis =>
      have together := regrouped.step state
      simp only [Search.pull]
      generalize first.step state = outcome, second.step state = otherOutcome at together
      cases together with
      | answer rests => exact ⟨rfl, rests, rfl⟩
      | silent rests => exact inductionHypothesis rests _
      | finished => exact ⟨rfl, regrouped, rfl⟩

theorem outcomes {first second : Search} (regrouped : first.Regrouped second) (fuel count : Nat)
    (state : State) :
    (first.outcomes fuel count state).1 = (second.outcomes fuel count state).1 ∧
      (first.outcomes fuel count state).2.2 = (second.outcomes fuel count state).2.2 := by
  induction count generalizing first second state with
  | zero => exact ⟨rfl, rfl⟩
  | succ count inductionHypothesis =>
      obtain ⟨sameOutcome, rests, sameState⟩ := regrouped.pull fuel state
      obtain ⟨sameLater, sameFinal⟩ :=
        inductionHypothesis rests (first.pull fuel state).2.2
      rw [outcomes_succ, outcomes_succ, sameOutcome, sameLater, sameFinal, sameState]
      exact ⟨rfl, rfl⟩

end Search.Regrouped

/-! ## Goals -/

/-- The two formulas differ in how some of their conjunctions are grouped. -/
inductive Formula.Reassociates {Argument Reference : Type} :
    Formula Argument Reference → Formula Argument Reference → Prop
  | assoc (first second third : Formula Argument Reference) :
      Reassociates (.conj (.conj first second) third) (.conj first (.conj second third))
  | refl (formula : Formula Argument Reference) : Reassociates formula formula
  | symm {first second : Formula Argument Reference} (same : Reassociates first second) :
      Reassociates second first
  | trans {first second third : Formula Argument Reference} (early : Reassociates first second)
      (late : Reassociates second third) : Reassociates first third
  | conj {left otherLeft right otherRight : Formula Argument Reference}
      (lefts : Reassociates left otherLeft) (rights : Reassociates right otherRight) :
      Reassociates (.conj left right) (.conj otherLeft otherRight)
  | disj {left otherLeft right otherRight : Formula Argument Reference}
      (lefts : Reassociates left otherLeft) (rights : Reassociates right otherRight) :
      Reassociates (.disj left right) (.disj otherLeft otherRight)

/-- A conjunction is written without parentheses, so its grouping does not show. -/
theorem Formula.Reassociates.text_eq {Argument Reference : Type}
    {first second : Formula Argument Reference} (same : first.Reassociates second)
    (argument : Argument → String) (name : Reference → String) :
    first.text argument name = second.text argument name := by
  induction same with
  | assoc first second third => simp only [Formula.text, String.append_assoc]
  | refl formula => rfl
  | symm _ inductionHypothesis => exact inductionHypothesis.symm
  | trans _ _ earlyHypothesis lateHypothesis => exact earlyHypothesis.trans lateHypothesis
  | conj _ _ leftHypothesis rightHypothesis =>
      simp only [Formula.text, leftHypothesis, rightHypothesis]
  | disj _ _ leftHypothesis rightHypothesis =>
      simp only [Formula.text, leftHypothesis, rightHypothesis]

namespace Goal

/-- Wherever the two goals are begun, their searches differ in grouping only. -/
def Regrouped (first second : Goal) : Prop :=
  ∀ env database, (start first env database).Regrouped (start second env database)

/-- Begun in the same environment and the same state, and pulled as often, the two goals show the
same and leave the same state: the same variables have been created, the same bodies built and the
same lines written. -/
def Indistinguishable (first second : Goal) : Prop :=
  ∀ env fuel count state,
    ((start first env state.database).outcomes fuel count state).1 =
        ((start second env state.database).outcomes fuel count state).1 ∧
      ((start first env state.database).outcomes fuel count state).2.2 =
        ((start second env state.database).outcomes fuel count state).2.2

variable {first second third : Goal}

theorem Regrouped.indistinguishable (regrouped : Regrouped first second) :
    Indistinguishable first second :=
  fun env fuel count state => (regrouped env state.database).outcomes fuel count state

theorem Regrouped.refl (goal : Goal) : Regrouped goal goal :=
  fun _ _ => .refl _

theorem Regrouped.trans (early : Regrouped first second) (late : Regrouped second third) :
    Regrouped first third :=
  fun env database => (early env database).trans (late env database)

theorem Regrouped.conj {left otherLeft right otherRight : Goal} (lefts : Regrouped left otherLeft)
    (rights : Regrouped right otherRight) :
    Regrouped (.conj left right) (.conj otherLeft otherRight) :=
  fun env database => .join (.refl _) (lefts env database) rights

theorem Regrouped.disj {left otherLeft right otherRight : Goal} (lefts : Regrouped left otherLeft)
    (rights : Regrouped right otherRight) :
    Regrouped (.disj left right) (.disj otherLeft otherRight) :=
  fun env database => .alternative (lefts env database) (rights env)

/-! ## The three laws -/

theorem regrouped_conj (first second third : Goal) :
    Regrouped (.conj (.conj first second) third) (.conj first (.conj second third)) := by
  intro env database
  -- Before the first step, neither the inner nor the outer conjunction has anything to go on with.
  have spent : Search.Regrouped (.join .ended .ended third) .ended :=
    .exhausted ⟨trivial, trivial⟩ trivial
  exact .trans (.conjuncts ..) (.join spent (.refl _) fun _ _ => .refl _)

theorem regrouped_disj (first second third : Goal) :
    Regrouped (.disj (.disj first second) third) (.disj first (.disj second third)) :=
  fun _ _ => .disjuncts ..

theorem regrouped_spread (first second third : Goal) :
    Regrouped (.conj (.disj first second) third)
      (.disj (.conj first third) (.conj second third)) :=
  fun _ _ => .spread ..

/-! ## Long conjunctions and disjunctions -/

/-- An associative way to put goals together may be folded from either side. -/
theorem regrouped_foldl (combine : Goal → Goal → Goal)
    (assoc : ∀ first second third,
      Regrouped (combine (combine first second) third) (combine first (combine second third)))
    (first : Goal) (others : List Goal) (last : Goal) :
    Regrouped (combine (others.foldl combine first) last)
      (combine first (others.foldr combine last)) := by
  induction others using List.reverseRecOn generalizing last with
  | nil => exact .refl _
  | append_singleton others next inductionHypothesis =>
      rw [List.foldl_append, List.foldr_append]
      exact (assoc _ next last).trans (inductionHypothesis (combine next last))

theorem regrouped_conjAll (first : Goal) (others : List Goal) (last : Goal) :
    Regrouped (Formula.conjAll first (others ++ [last]))
      (List.foldr Formula.conj last (first :: others)) := by
  rw [Formula.conjAll, List.foldl_append]
  exact regrouped_foldl Formula.conj regrouped_conj first others last

theorem regrouped_disjAll (first : Goal) (others : List Goal) (last : Goal) :
    Regrouped (Formula.disjAll first (others ++ [last]))
      (List.foldr Formula.disj last (first :: others)) := by
  rw [Formula.disjAll, List.foldl_append]
  exact regrouped_foldl Formula.disj regrouped_disj first others last

theorem regrouped_of_reassociates (same : Formula.Reassociates first second) :
    Regrouped first second := by
  induction same with
  | assoc first second third => exact regrouped_conj first second third
  | refl goal => exact .refl goal
  | symm _ inductionHypothesis =>
      exact fun env database => (inductionHypothesis env database).symm
  | trans _ _ earlyHypothesis lateHypothesis => exact earlyHypothesis.trans lateHypothesis
  | conj _ _ leftHypothesis rightHypothesis => exact leftHypothesis.conj rightHypothesis
  | disj _ _ leftHypothesis rightHypothesis => exact leftHypothesis.disj rightHypothesis

/-! ## Observations -/

/-- Grouping cannot be observed.  Three conjuncts or three disjuncts may be grouped to the left or to
the right, and a disjunction to the left of a conjunction may be replaced by its two cases: begun in
the same state, both sides show the same at every pull and leave the same state.  So goals that are
put together from left to right behave as if they had been put together from right to left, and
conjunctions that are written alike because only their grouping is different behave alike. -/
theorem outcomes_regroup (first second third : Goal) (others : List Goal) :
    Indistinguishable (.conj (.conj first second) third) (.conj first (.conj second third)) ∧
    Indistinguishable (.disj (.disj first second) third) (.disj first (.disj second third)) ∧
    Indistinguishable (.conj (.disj first second) third)
      (.disj (.conj first third) (.conj second third)) ∧
    Indistinguishable (Formula.conjAll first (others ++ [third]))
      (List.foldr Formula.conj third (first :: others)) ∧
    Indistinguishable (Formula.disjAll first (others ++ [third]))
      (List.foldr Formula.disj third (first :: others)) ∧
    ∀ other : Goal, Formula.Reassociates first other →
      Indistinguishable first other ∧ ∀ names, text names first = text names other := by
  refine ⟨(regrouped_conj first second third).indistinguishable,
    (regrouped_disj first second third).indistinguishable,
    (regrouped_spread first second third).indistinguishable,
    (regrouped_conjAll first others third).indistinguishable,
    (regrouped_disjAll first others third).indistinguishable, fun other same => ⟨?_, ?_⟩⟩
  · exact (regrouped_of_reassociates same).indistinguishable
  · exact fun names => same.text_eq (Term.text names) Rule.name

/-- There is a stretch to a place from which one can get on, and which can be reached from `a`. -/
theorem outcomes_regroup_onward :
    ((start
        (.conj (.fact Routes.stretch [.wildcard, .var ⟨1⟩])
          (.conj (.call Routes.route [.var ⟨1⟩, .wildcard]) Routes.onward))
        .empty Routes.road.database).outcomes 40 2 Routes.road).1 =
      [.found (Routes.destination (.symbol "b")), .ended] ∧
    ∀ names,
      text names (.conj (.conj (.fact Routes.stretch [.wildcard, .var ⟨1⟩])
          (.call Routes.route [.var ⟨1⟩, .wildcard])) Routes.onward) =
        text names (.conj (.fact Routes.stretch [.wildcard, .var ⟨1⟩])
          (.conj (.call Routes.route [.var ⟨1⟩, .wildcard]) Routes.onward)) := by
  have laws := outcomes_regroup (.fact Routes.stretch [.wildcard, .var ⟨1⟩])
    (.call Routes.route [.var ⟨1⟩, .wildcard]) Routes.onward []
  have shown := (laws.1 .empty 40 2 Routes.road).1
  constructor
  · rw [← shown]
    rfl
  · exact ((outcomes_regroup _ Routes.onward Routes.onward []).2.2.2.2.2 _ (.assoc ..)).2

end Goal

end GroundLogic
