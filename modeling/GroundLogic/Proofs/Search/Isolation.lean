import GroundLogic.Proofs.Renaming.Answers
import GroundLogic.Proofs.Search.Laziness
import GroundLogic.Proofs.Solutions.Unfolding

/-!
# Goals see only their own variables

Two evaluations of one goal, from environments that agree on the variables written in it, go
through the same steps with the same effects: the bodies that are built never meet an environment of
the caller, only the arguments narrowed by it (`Search.Twin`).  So the bindings of all other
variables, captured ones among them, are neither read nor written (`Goal.outcomes_isolated`).
-/

namespace GroundLogic

variable {seen : Variable → Prop} {left right : Environment}

/-! ## Agreement on some variables -/

/-- The variables are unbound on both sides, or have the same values. -/
def Environment.AgreesOn (seen : Variable → Prop) (left right : Environment) : Prop :=
  ∀ unknown, seen unknown → left.get? unknown = right.get? unknown

/-- Related options are both empty, or hold related values. -/
theorem exists_of_rel {First Second : Type} {related : First → Second → Prop}
    {first : Option First} {second : Option Second} (relation : Option.Rel related first second) :
    (first = none ∧ second = none) ∨
      ∃ found other, first = some found ∧ second = some other ∧ related found other := by
  cases relation with
  | none => exact Or.inl ⟨rfl, rfl⟩
  | some held => exact Or.inr ⟨_, _, rfl, rfl, held⟩

namespace Environment.AgreesOn

theorem insert (agree : left.AgreesOn seen right) (unknown : Variable) (value : Value) :
    (left.insert unknown value).AgreesOn seen (right.insert unknown value) := by
  intro tested isSeen
  rw [get?_insert, get?_insert, agree tested isSeen]

theorem bind {unknown : Variable} (agree : left.AgreesOn seen right) (isSeen : seen unknown)
    (value : Value) :
    Option.Rel (AgreesOn seen) (left.bind unknown value) (right.bind unknown value) := by
  simp only [Environment.bind, agree unknown isSeen]
  cases right.get? unknown with
  | none => exact .some (agree.insert unknown value)
  | some known =>
      by_cases same : known = value
      · simp only [if_pos same]
        exact .some agree
      · simp only [if_neg same]
        exact .none

theorem narrow {pattern : Pattern} (agree : left.AgreesOn seen right)
    (patternOver : Pattern.Over seen pattern) : pattern.narrow left = pattern.narrow right := by
  apply List.map_congr_left
  intro term member
  cases term with
  | value constant => rfl
  | wildcard => rfl
  | var unknown => simp only [Term.narrow, agree unknown (patternOver _ member unknown rfl)]

theorem unify {pattern : Pattern} (agree : left.AgreesOn seen right)
    (patternOver : Pattern.Over seen pattern) (tuple : Tuple) :
    Option.Rel (AgreesOn seen) (pattern.unify tuple left) (pattern.unify tuple right) := by
  induction pattern generalizing tuple left right with
  | nil => exact .some agree
  | cons term terms inductionHypothesis =>
      obtain ⟨termOver, termsOver⟩ := List.forall_mem_cons.1 patternOver
      cases tuple with
      | nil => exact .some agree
      | cons stored values =>
          cases term with
          | value expected =>
              by_cases same : expected = stored
              · simp only [Pattern.unify, Term.unify, if_pos same]
                exact inductionHypothesis agree termsOver values
              · simp only [Pattern.unify, Term.unify, if_neg same]
                exact .none
          | wildcard =>
              simp only [Pattern.unify, Term.unify]
              exact inductionHypothesis agree termsOver values
          | var unknown =>
              simp only [Pattern.unify, Term.unify]
              rcases exists_of_rel (agree.bind (termOver unknown rfl) stored) with
                ⟨refused, refusedThere⟩ | ⟨found, other, bound, boundThere, agreeNow⟩
              · rw [refused, refusedThere]
                exact .none
              · rw [bound, boundThere]
                exact inductionHypothesis agreeNow termsOver values

/-- Both scans stop at the same tuple. -/
theorem nextMatch {pattern : Pattern} (agree : left.AgreesOn seen right)
    (patternOver : Pattern.Over seen pattern) (narrowed : Pattern) (tuples : List Tuple) :
    Option.Rel (fun found other => found.1.AgreesOn seen other.1 ∧ found.2 = other.2)
      (Pattern.nextMatch pattern narrowed left tuples)
      (Pattern.nextMatch pattern narrowed right tuples) := by
  induction tuples with
  | nil => exact .none
  | cons tuple rest inductionHypothesis =>
      by_cases admitted : narrowed.admits tuple = true
      · simp only [Pattern.nextMatch, if_pos admitted]
        rcases exists_of_rel (agree.unify patternOver tuple) with
          ⟨refused, refusedThere⟩ | ⟨found, other, unified, unifiedThere, agreeNow⟩
        · rw [refused, refusedThere]
          exact inductionHypothesis
        · rw [unified, unifiedThere]
          exact .some ⟨agreeNow, rfl⟩
      · simp only [Pattern.nextMatch, if_neg admitted]
        exact inductionHypothesis

theorem bindBack {arguments : Pattern} (agree : left.AgreesOn seen right)
    (argumentsOver : Pattern.Over seen arguments) (answer : Environment)
    (parameters : List Variable) :
    Option.Rel (AgreesOn seen) (Pattern.bindBack answer arguments parameters left)
      (Pattern.bindBack answer arguments parameters right) := by
  induction arguments generalizing parameters left right with
  | nil => exact .some agree
  | cons term terms inductionHypothesis =>
      obtain ⟨termOver, termsOver⟩ := List.forall_mem_cons.1 argumentsOver
      cases parameters with
      | nil => cases term <;> exact .some agree
      | cons parameter others =>
          cases term with
          | value constant => exact inductionHypothesis agree termsOver others
          | wildcard => exact inductionHypothesis agree termsOver others
          | var unknown =>
              simp only [Pattern.bindBack]
              cases answer.get? parameter with
              | none => exact inductionHypothesis agree termsOver others
              | some value =>
                  simp only
                  rcases exists_of_rel (agree.bind (termOver unknown rfl) value) with
                    ⟨refused, refusedThere⟩ | ⟨found, other, bound, boundThere, agreeNow⟩
                  · rw [refused, refusedThere]
                    exact .none
                  · rw [bound, boundThere]
                    exact inductionHypothesis agreeNow termsOver others

end Environment.AgreesOn

/-! ## Two searches side by side -/

/-- Two searches at the same place, in environments that agree on the variables seen.  A body that
is being searched is the same on both sides. -/
inductive Search.Twin (seen : Variable → Prop) : Search → Search → Prop
  | ended : Twin seen .ended .ended
  | scan {pattern narrowed : Pattern} {left right : Environment} {remaining : List Tuple}
      (patternOver : Pattern.Over seen pattern) (agree : left.AgreesOn seen right) :
      Twin seen (.scan pattern narrowed left remaining) (.scan pattern narrowed right remaining)
  | join {current other first second : Search} {goal : Goal} (late : Twin seen current other)
      (early : Twin seen first second) (goalOver : Pattern.Over seen (Formula.arguments goal)) :
      Twin seen (.join current first goal) (.join other second goal)
  | alternative {first second : Search} {goal : Goal} {left right : Environment}
      (early : Twin seen first second) (goalOver : Pattern.Over seen (Formula.arguments goal))
      (agree : left.AgreesOn seen right) :
      Twin seen (.alternative first goal left) (.alternative second goal right)
  | call {rule : Rule} {arguments : Pattern} {left right : Environment}
      (argumentsOver : Pattern.Over seen arguments) (agree : left.AgreesOn seen right) :
      Twin seen (.call rule arguments left) (.call rule arguments right)
  | returning {body : Search} {arguments : Pattern} {parameters : List Variable}
      {left right : Environment} (argumentsOver : Pattern.Over seen arguments)
      (agree : left.AgreesOn seen right) :
      Twin seen (.returning body arguments parameters left)
        (.returning body arguments parameters right)

/-- Two steps that come out alike and leave the same state. -/
inductive Step.Twin (seen : Variable → Prop) : Step × State → Step × State → Prop
  | answer {left right : Environment} {rest other : Search} {after : State}
      (agree : left.AgreesOn seen right) (twin : rest.Twin seen other) :
      Twin seen (.answer left rest, after) (.answer right other, after)
  | silent {rest other : Search} {after : State} (twin : rest.Twin seen other) :
      Twin seen (.silent rest, after) (.silent other, after)
  | finished {after : State} : Twin seen (.finished, after) (.finished, after)

/-- Two pulls that find related answers, or both come to the end, or are both unfinished. -/
inductive Pull.Related {First Second : Type} (related : First → Second → Prop) :
    Pull First → Pull Second → Prop
  | found {first : First} {second : Second} (relation : related first second) :
      Related related (.found first) (.found second)
  | ended : Related related .ended .ended
  | unfinished : Related related .unfinished .unfinished

namespace Search

theorem twin_start {goal : Goal} (goalOver : Pattern.Over seen (Formula.arguments goal))
    (agree : left.AgreesOn seen right) (database : Database) :
    (goal.start left database).Twin seen (goal.start right database) := by
  induction goal with
  | fact relation pattern =>
      have patternOver : Pattern.Over seen pattern := goalOver
      simp only [Goal.start, agree.narrow patternOver]
      exact .scan patternOver agree
  | conj first second firstHypothesis secondHypothesis =>
      obtain ⟨firstOver, secondOver⟩ := Pattern.over_append.1 goalOver
      exact .join .ended (firstHypothesis firstOver) secondOver
  | disj first second firstHypothesis secondHypothesis =>
      obtain ⟨firstOver, secondOver⟩ := Pattern.over_append.1 goalOver
      exact .alternative (firstHypothesis firstOver) secondOver agree
  | call rule arguments =>
      have argumentsOver : Pattern.Over seen arguments := goalOver
      simp only [Goal.start, agree.narrow argumentsOver]
      exact .call (Pattern.over_narrow argumentsOver) agree

variable {search other : Search}

/-- When the right goal is done with on both sides, both go on with the left one. -/
private theorem twin_left {current late first second : Search} {goal : Goal} {state after : State}
    (goalOver : Pattern.Over seen (Formula.arguments goal))
    (currentStep : current.step state = (.finished, after))
    (lateStep : late.step state = (.finished, after))
    (early : Step.Twin seen (first.step after) (second.step after)) :
    Step.Twin seen ((Search.join current first goal).step state)
      ((Search.join late second goal).step state) := by
  rcases firstStep : first.step after with ⟨outcome, later⟩
  rcases secondStep : second.step after with ⟨otherOutcome, otherLater⟩
  rw [firstStep, secondStep] at early
  simp only [step, currentStep, lateStep, firstStep, secondStep]
  cases early with
  | answer agree twin => exact .silent (.join (twin_start goalOver agree _) twin goalOver)
  | silent twin => exact .silent (.join .ended twin goalOver)
  | finished => exact .finished

theorem twin_step (twin : search.Twin seen other) (state : State) :
    Step.Twin seen (search.step state) (other.step state) := by
  induction twin generalizing state with
  | ended => exact .finished
  | @scan pattern narrowed left right remaining patternOver agree =>
      simp only [step]
      rcases exists_of_rel (agree.nextMatch patternOver narrowed remaining) with
        ⟨absent, absentThere⟩ | ⟨found, also, answered, answeredThere, agreeNow, sameRest⟩
      · rw [absent, absentThere]
        exact .finished
      · rw [answered, answeredThere]
        simp only [sameRest]
        exact .answer agreeNow (.scan patternOver agree)
  | @join current late first second goal lateTwin earlyTwin goalOver lateHypothesis
      earlyHypothesis =>
      have steps := lateHypothesis state
      rcases currentStep : current.step state with ⟨outcome, after⟩
      rcases lateStep : late.step state with ⟨otherOutcome, otherAfter⟩
      rw [currentStep, lateStep] at steps
      cases steps with
      | answer agree twin =>
          simp only [step, currentStep, lateStep]
          exact .answer agree (.join twin earlyTwin goalOver)
      | silent twin =>
          simp only [step, currentStep, lateStep]
          exact .silent (.join twin earlyTwin goalOver)
      | finished => exact twin_left goalOver currentStep lateStep (earlyHypothesis after)
  | @alternative first second goal left right earlyTwin goalOver agree earlyHypothesis =>
      have steps := earlyHypothesis state
      rcases firstStep : first.step state with ⟨outcome, after⟩
      rcases secondStep : second.step state with ⟨otherOutcome, otherAfter⟩
      rw [firstStep, secondStep] at steps
      simp only [step, firstStep, secondStep]
      cases steps with
      | answer agreeNow twin => exact .answer agreeNow (.alternative twin goalOver agree)
      | silent twin => exact .silent (.alternative twin goalOver agree)
      | finished => exact .silent (twin_start goalOver agree _)
  | call argumentsOver agree =>
      -- Both enter the body with the same arguments, so from here on the bodies are equal.
      rw [step_call, step_call]
      exact .silent (.returning argumentsOver agree)
  | @returning body arguments parameters left right argumentsOver agree =>
      simp only [step]
      rcases body.step state with ⟨answer | _ | _, after⟩
      · simp only
        rcases exists_of_rel (agree.bindBack argumentsOver answer parameters) with
          ⟨refused, refusedThere⟩ | ⟨found, also, returned, returnedThere, agreeNow⟩
        · rw [refused, refusedThere]
          exact .silent (.returning argumentsOver agree)
        · rw [returned, returnedThere]
          exact .answer agreeNow (.returning argumentsOver agree)
      · exact .silent (.returning argumentsOver agree)
      · exact .finished

/-- Pulls of twins come out alike, have the same effects and leave twins. -/
theorem twin_pull (fuel : Nat) (twin : search.Twin seen other) (state : State) :
    Pull.Related (Environment.AgreesOn seen) (search.pull fuel state).1 (other.pull fuel state).1 ∧
      (search.pull fuel state).2.1.Twin seen (other.pull fuel state).2.1 ∧
      (search.pull fuel state).2.2 = (other.pull fuel state).2.2 := by
  induction fuel generalizing search other state with
  | zero => exact ⟨.unfinished, twin, rfl⟩
  | succ fuel inductionHypothesis =>
      have steps := twin_step twin state
      rw [pull, pull]
      rcases searchStep : search.step state with ⟨outcome, after⟩
      rcases otherStep : other.step state with ⟨otherOutcome, otherAfter⟩
      rw [searchStep, otherStep] at steps
      cases steps with
      | answer agree rest => exact ⟨.found agree, rest, rfl⟩
      | silent rest => exact inductionHypothesis rest after
      | finished => exact ⟨.ended, twin, rfl⟩

end Search

/-! ## What solutions add -/

namespace Environment

variable {first second : Environment}

/-- Two environments have grown out of two others by the same bindings. -/
structure SameAdditions (first second left right : Environment) : Prop where
  extends_first : left.Extends first
  extends_second : right.Extends second
  same : left.forget first.domain = right.forget second.domain

/-- Whatever is added on one side is added on the other. -/
private theorem added_of_agree (agree : first.AgreesOn seen second)
    (leftOver : left.Over (first.BoundOr seen)) (together : left.AgreesOn seen right)
    {unknown : Variable} {value : Value}
    (added : (left.forget first.domain).get? unknown = some value) :
    (right.forget second.domain).get? unknown = some value := by
  obtain ⟨unbound, found⟩ := get?_forget.1 added
  rcases leftOver unknown value found with bound | isSeen
  · exact absurd (mem_domain.2 bound) unbound
  · apply get?_forget.2
    constructor
    · intro boundThere
      obtain ⟨known, foundThere⟩ := mem_domain.1 boundThere
      apply unbound
      apply mem_domain.2
      exact ⟨known, (agree unknown isSeen).trans foundThere⟩
    · rw [← together unknown isSeen]
      exact found

theorem sameAdditions (agree : first.AgreesOn seen second)
    (leftGrown : left.Grown first (first.BoundOr seen))
    (rightGrown : right.Grown second (second.BoundOr seen))
    (together : left.AgreesOn seen right) : SameAdditions first second left right := by
  refine ⟨leftGrown.extension, rightGrown.extension, ?_⟩
  apply ext_bindings
  intro unknown value
  constructor
  · exact added_of_agree agree leftGrown.isOver together
  · apply added_of_agree _ rightGrown.isOver
    · exact fun tested isSeen => (together tested isSeen).symm
    · exact fun tested isSeen => (agree tested isSeen).symm

end Environment

/-! ## Sequences of pulls -/

namespace Search

variable {first second : Environment} {search other : Search}

/-- Side by side, a number of pulls come out alike: they add the same bindings to two environments,
and they leave the same state. -/
structure Alongside (first second : Environment) (fuel count : Nat) (state : State)
    (search other : Search) : Prop where
  outcomes : List.Forall₂ (Pull.Related (Environment.SameAdditions first second))
    (search.outcomes fuel count state).1 (other.outcomes fuel count state).1
  effects : (search.outcomes fuel count state).2.2 = (other.outcomes fuel count state).2.2

theorem grown_of_outcomes {admitted : Variable → Prop}
    (exposes : search.Exposes first admitted) (fuel count : Nat) (state : State) :
    ∀ solution, Pull.found solution ∈ (search.outcomes fuel count state).1 →
      solution.Grown first admitted := by
  induction count generalizing search state with
  | zero => exact fun solution member => absurd member List.not_mem_nil
  | succ count inductionHypothesis =>
      obtain ⟨restExposes, answerGrown⟩ := exposes_of_pull fuel exposes state
      intro solution member
      rw [outcomes_succ] at member
      rcases List.mem_cons.1 member with now | later
      · exact answerGrown solution now.symm
      · exact inductionHypothesis restExposes _ solution later

theorem alongside_of_twin (agree : first.AgreesOn seen second) (twin : search.Twin seen other)
    (exposes : search.Exposes first (first.BoundOr seen))
    (otherExposes : other.Exposes second (second.BoundOr seen)) (fuel count : Nat)
    (state : State) : Alongside first second fuel count state search other := by
  induction count generalizing search other state with
  | zero => exact ⟨.nil, rfl⟩
  | succ count inductionHypothesis =>
      obtain ⟨related, restTwin, sameState⟩ := twin_pull fuel twin state
      obtain ⟨restExposes, grown⟩ := exposes_of_pull fuel exposes state
      obtain ⟨otherRestExposes, otherGrown⟩ := exposes_of_pull fuel otherExposes state
      have later := inductionHypothesis restTwin restExposes otherRestExposes
        (search.pull fuel state).2.2
      have now : Pull.Related (Environment.SameAdditions first second)
          (search.pull fuel state).1 (other.pull fuel state).1 := by
        generalize (search.pull fuel state).1 = outcome at related grown
        generalize (other.pull fuel state).1 = otherOutcome at related otherGrown
        cases related with
        | found together =>
            exact .found (Environment.sameAdditions agree (grown _ rfl) (otherGrown _ rfl)
              together)
        | ended => exact .ended
        | unfinished => exact .unfinished
      constructor
      · rw [outcomes_succ, outcomes_succ, ← sameState]
        exact .cons now later.outcomes
      · rw [outcomes_succ, outcomes_succ, ← sameState]
        exact later.effects

end Search

/-! ## Goals -/

namespace Goal

variable {goal : Goal} {first second : Environment}

theorem alongside (agree : first.AgreesOn (· ∈ goal.unknowns) second) (fuel count : Nat)
    (state : State) :
    Search.Alongside first second fuel count state (goal.start first state.database)
      (goal.start second state.database) := by
  have twin := Search.twin_start (Pattern.over_unknowns _) agree state.database
  exact Search.alongside_of_twin agree twin (Search.exposes_boundOr goal first _)
    (Search.exposes_boundOr goal second _) fuel count state

/-- The arguments of a call, narrowed by the environment, are all that the environment is needed
for. -/
theorem alongside_narrowed (rule : Rule) (arguments : Pattern) (env : Environment)
    (fuel count : Nat) (state : State) :
    Search.Alongside env .empty fuel count state
      (Goal.start (.call rule arguments) env state.database)
      (Goal.start (.call rule (Pattern.narrow env arguments)) .empty state.database) := by
  have agree : env.AgreesOn (· ∈ Pattern.unknowns (Pattern.narrow env arguments)) .empty := by
    intro unknown left
    obtain ⟨written, _, narrowed⟩ := List.mem_map.1 (Pattern.mem_unknowns.1 left)
    exact (Term.narrow_eq_var_iff.1 narrowed).2
  have sameStart : Goal.start (.call rule arguments) env state.database =
      Goal.start (.call rule (Pattern.narrow env arguments)) env state.database := by
    simp only [Goal.start, Pattern.narrow_narrow]
  rw [sameStart]
  exact @alongside (.call rule (Pattern.narrow env arguments)) env .empty agree fuel count state

/-- A goal sees only its own variables.  From two environments that agree on the variables written
in its patterns and arguments, any number of pulls come out alike: they find a solution or come to
the end together, corresponding solutions add the same bindings, and the same variables are created
and the same events noted.  Variables that are not written in the goal stay as they are.  A body
that is called gets the narrowed arguments and nothing else from the environment of its caller: the
call does the same from the empty environment, whatever its rule captures. -/
theorem outcomes_isolated (agree : first.AgreesOn (· ∈ goal.unknowns) second) (fuel count : Nat)
    (state : State) :
    Search.Alongside first second fuel count state (goal.start first state.database)
      (goal.start second state.database) ∧
    (∀ solution,
      .found solution ∈ ((goal.start first state.database).outcomes fuel count state).1 →
        ∀ unknown, unknown ∉ goal.unknowns → solution.get? unknown = first.get? unknown) ∧
    ∀ (rule : Rule) (arguments : Pattern) (env : Environment),
      Search.Alongside env .empty fuel count state
        (Goal.start (.call rule arguments) env state.database)
        (Goal.start (.call rule (Pattern.narrow env arguments)) .empty state.database) := by
  refine ⟨alongside agree fuel count state, ?_, ?_⟩
  · intro solution member unknown unseen
    have grown := Search.grown_of_outcomes (Search.exposes_boundOr goal first _) fuel count state
      solution member
    exact grown.get?_eq unseen
  · intro rule arguments env
    exact alongside_narrowed rule arguments env fuel count state

end Goal

namespace Routes

/-- The road, and one more variable. -/
def surveyed : State :=
  (road.declare (.named "Start" none)).2

/-- Where a stretch ends.  The body captures the second variable, for where it starts. -/
def ends : Rule :=
  ⟨⟨1, "ends", 1, [], [], .fact stretch [.slot 1, .slot 0]⟩, [⟨2⟩], []⟩

/-- The captured variable has a value at which no stretch starts. -/
def nowhere : Environment :=
  ⟨[(⟨2⟩, .symbol "nowhere")], List.pairwise_singleton _ _⟩

end Routes

/-- The body binds the captured variable for itself; outside, its value neither matters nor
changes. -/
theorem Goal.outcomes_isolated_nowhere :
    Search.Alongside .empty Routes.nowhere 10 3 Routes.surveyed
      (Goal.start (.call Routes.ends [.var ⟨1⟩]) .empty Routes.surveyed.database)
      (Goal.start (.call Routes.ends [.var ⟨1⟩]) Routes.nowhere Routes.surveyed.database) ∧
    ((Goal.start (.call Routes.ends [.var ⟨1⟩]) .empty Routes.surveyed.database).outcomes 10 3
      Routes.surveyed).1 = [.found (Routes.destination (.symbol "b")),
        .found (Routes.destination (.symbol "c")), .ended] := by
  have agree : Environment.empty.AgreesOn
      (· ∈ Goal.unknowns (.call Routes.ends [.var ⟨1⟩])) Routes.nowhere := by
    intro unknown isSeen
    rw [List.mem_singleton.1 isSeen]
    rfl
  exact ⟨(Goal.outcomes_isolated agree 10 3 Routes.surveyed).1, rfl⟩

end GroundLogic
