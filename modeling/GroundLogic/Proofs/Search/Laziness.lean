import GroundLogic.Proofs.Goal.Reach
import GroundLogic.Proofs.Search.Visits
import GroundLogic.Query

/-!
# Laziness

Pulling a number of answers has the effects that eager evaluation has had when it finds the last of
them, and no others: no body is built before the answer that needs it is pulled
(`outcomes_eq_visit`).  Past the end a pull changes nothing.
-/

namespace GroundLogic

/-! ## A number of pulls -/

/-- The outcomes of a number of pulls, one after the other, whatever they are. -/
def Pull.outcomes {Answer Source : Type} (next : Source → Pull Answer × Source) :
    Nat → Source → List (Pull Answer) × Source
  | 0, source => ([], source)
  | count + 1, source =>
      match next source with
      | (outcome, rest) =>
          match outcomes next count rest with
          | (later, final) => (outcome :: later, final)

/-- A number of pulls with at most `fuel` steps for each. -/
def Search.outcomes (fuel count : Nat) (search : Search) (state : State) :
    List (Pull Environment) × Search × State :=
  Pull.outcomes (fun source => source.1.pull fuel source.2) count (search, state)

def Answers.outcomes (fuel count : Nat) (answers : Answers) (state : State) :
    List (Pull Pattern) × Answers × State :=
  Pull.outcomes (fun source => source.1.pull fuel source.2) count (answers, state)

namespace Visit

/-- What the pull at a position has to return: the answer there, or nothing past the last one. -/
def outcomeIn (answers : List (Environment × State)) (position : Nat) : Pull Environment :=
  match answers[position]? with
  | some (answer, _) => .found answer
  | none => .ended

/-- The state that a number of pulls has to leave: that of the last answer pulled, or that of the
end. -/
def stateIn (answers : List (Environment × State)) (start final : State) : Nat → State
  | 0 => start
  | count + 1 =>
      match answers[count]? with
      | some (_, state) => state
      | none => final

def outcome (visit : Visit) (position : Nat) : Pull Environment :=
  outcomeIn visit.found.reverse position

def stateAfter (visit : Visit) (start : State) (count : Nat) : State :=
  stateIn visit.found.reverse start visit.state count

/-- The visit has found so many answers, or come to its end. -/
def Decides (visit : Visit) (count : Nat) : Prop :=
  count ≤ visit.found.length ∨ visit.cut = false

/-- The state of the end does not matter before the end. -/
theorem stateIn_congr {trace : List (Environment × State)} {count : Nat}
    (found : count ≤ trace.length) (start first second : State) :
    stateIn trace start first count = stateIn trace start second count := by
  cases count with
  | zero => rfl
  | succ count => simp only [stateIn, List.getElem?_eq_getElem found]

end Visit

namespace Search

variable {search rest : Search} {state final : State} {trace : List (Environment × State)}

theorem outcomes_succ (fuel count : Nat) (search : Search) (state : State) :
    search.outcomes fuel (count + 1) state =
      ((search.pull fuel state).1 ::
          ((search.pull fuel state).2.1.outcomes fuel count (search.pull fuel state).2.2).1,
        ((search.pull fuel state).2.1.outcomes fuel count (search.pull fuel state).2.2).2) :=
  rfl

theorem exists_outcomes (steps : search.Steps state trace rest final) {count : Nat}
    (decided : count ≤ trace.length ∨ rest.Exhausted) :
    ∃ enough place, ∀ allowed, enough ≤ allowed →
      search.outcomes allowed count state =
        ((List.range count).map (Visit.outcomeIn trace), place,
          Visit.stateIn trace state final count) := by
  induction count generalizing search state trace with
  | zero => exact ⟨0, search, fun _ _ => rfl⟩
  | succ count inductionHypothesis =>
      cases trace with
      | nil =>
          have exhausted : rest.Exhausted := decided.resolve_left (Nat.not_succ_le_zero count)
          obtain ⟨fuel, pulled⟩ := exists_pull_ended steps exhausted
          obtain ⟨later, place, outcomes⟩ :=
            inductionHypothesis (.refl rest final) (Or.inr exhausted)
          refine ⟨max fuel later, place, fun allowed enough => ?_⟩
          rw [outcomes_succ, pulled allowed (Nat.le_trans (Nat.le_max_left ..) enough)]
          simp only
          rw [outcomes allowed (Nat.le_trans (Nat.le_max_right ..) enough),
            List.range_succ_eq_map, List.map_cons, List.map_map]
          cases count <;> rfl
      | cons head tail =>
          obtain ⟨fuel, next, pulled, others⟩ := exists_pull_found steps
          have decidedLater : count ≤ tail.length ∨ rest.Exhausted :=
            decided.imp_left Nat.le_of_succ_le_succ
          obtain ⟨later, place, outcomes⟩ := inductionHypothesis others decidedLater
          refine ⟨max fuel later, place, fun allowed enough => ?_⟩
          rw [outcomes_succ, pulled allowed (Nat.le_trans (Nat.le_max_left ..) enough)]
          simp only
          rw [outcomes allowed (Nat.le_trans (Nat.le_max_right ..) enough),
            List.range_succ_eq_map, List.map_cons, List.map_map]
          cases count <;> rfl

end Search

/-! ## Goals and queries -/

/-- Pulling the search of a goal goes through what the visit of the goal has found. -/
theorem Goal.exists_outcomes (depth count : Nat) (goal : Goal) (env : Environment)
    (state : State) (decided : (visitAll depth goal env state).Decides count) :
    ∃ enough rest, ∀ allowed, enough ≤ allowed →
      (start goal env state.database).outcomes allowed count state =
        ((List.range count).map (visitAll depth goal env state).outcome, rest,
          (visitAll depth goal env state).stateAfter state count) := by
  obtain ⟨rest, final, steps, reached⟩ := steps_of_visitAll depth goal env state
  have reachedHere : count ≤ (visitAll depth goal env state).found.reverse.length ∨
      rest.Exhausted := by
    rw [List.length_reverse]
    exact decided.imp_right fun uncut => (reached uncut).1
  obtain ⟨enough, place, outcomes⟩ := Search.exists_outcomes steps reachedHere
  refine ⟨enough, place, fun allowed bound => ?_⟩
  rw [outcomes allowed bound]
  have sameState : Visit.stateIn (visitAll depth goal env state).found.reverse state final count =
      (visitAll depth goal env state).stateAfter state count := by
    rcases decided with found | uncut
    · rw [← List.length_reverse] at found
      exact Visit.stateIn_congr found state final _
    · rw [(reached uncut).2]
      rfl
  rw [sameState]
  rfl

theorem Answers.outcomes_eq (fuel count : Nat) (answers : Answers) (state : State) :
    answers.outcomes fuel count state =
      match answers.search.outcomes fuel count state with
      | (outcomes, rest, after) =>
          (outcomes.map fun outcome => outcome.map fun solution =>
              Pattern.project solution answers.pattern answers.parameters,
            { answers with search := rest }, after) := by
  induction count generalizing answers state with
  | zero => rfl
  | succ count inductionHypothesis =>
      rw [Search.outcomes_succ]
      exact congrArg (fun later => (_ :: later.1, later.2)) (inductionHypothesis _ _)

/-- Enumerating a query builds the body at once; from then on the answers are those of the visit of
this body. -/
theorem RuleQuery.exists_outcomes {query : RuleQuery} {state opened : State} {made : Instance}
    (built : query.rule.instantiate query.pattern state = (some made, opened))
    {depth count : Nat}
    (decided : (Goal.visitAll depth made.body made.start opened).Decides count) :
    ∃ enough rest, ∀ allowed, enough ≤ allowed →
      (query.enumerate state).1.outcomes allowed count opened =
        ((List.range count).map fun position =>
            ((Goal.visitAll depth made.body made.start opened).outcome position).map
              fun solution => Pattern.project solution query.pattern made.parameters,
          rest, (Goal.visitAll depth made.body made.start opened).stateAfter opened count) := by
  obtain ⟨enough, rest, outcomes⟩ := Goal.exists_outcomes depth count _ _ _ decided
  refine ⟨enough, ⟨query.pattern, made.parameters, rest⟩, fun allowed bound => ?_⟩
  simp only [enumerate, built, Answers.outcomes_eq]
  rw [outcomes allowed bound]
  simp only [List.map_map]
  rfl

/-- The first solution of a call is the first answer of the visit of its body. -/
theorem Rule.exists_first {rule : Rule} {arguments : Pattern} {state opened : State}
    {made : Instance} (built : rule.instantiate arguments state = (some made, opened))
    {depth : Nat} (decided : (Goal.visitAll depth made.body made.start opened).Decides 1) :
    ∃ enough, ∀ allowed, enough ≤ allowed →
      rule.first allowed arguments state =
        ((Goal.visitAll depth made.body made.start opened).outcome 0,
          (Goal.visitAll depth made.body made.start opened).stateAfter opened 1) := by
  obtain ⟨enough, rest, outcomes⟩ := Goal.exists_outcomes depth 1 _ _ _ decided
  refine ⟨enough, fun allowed bound => ?_⟩
  have once := outcomes allowed bound
  rw [Search.outcomes_succ] at once
  obtain ⟨sameOutcome, samePlace⟩ := Prod.mk.inj once
  simp only [first, built]
  have sameState := congrArg Prod.snd samePlace
  exact Prod.ext (List.cons.inj sameOutcome).1 sameState

/-! ## Lazy search refines eager evaluation -/

/-- For every number of answers that eager evaluation gets to, or for its end: pulling as often as
that returns these answers in order, and nothing past the last, and leaves the state of the eager
evaluation at the last answer that was pulled, with the same variables and the same journal.  A
search is begun without any effect.  Enumerating a query builds its body at once and goes on in the
same way, and the first solution of a call is the first answer of its body. -/
theorem outcomes_eq_visit (depth count : Nat) (goal : Goal) (env : Environment)
    (query : RuleQuery) (state : State) :
    ((goal.visitAll depth env state).Decides count →
      ∃ enough rest, ∀ allowed, enough ≤ allowed →
        (goal.start env state.database).outcomes allowed count state =
          ((List.range count).map (goal.visitAll depth env state).outcome, rest,
            (goal.visitAll depth env state).stateAfter state count)) ∧
    ∃ made opened, query.rule.instantiate query.pattern state = (some made, opened) ∧
      (query.enumerate state).2 = opened ∧
      ((made.body.visitAll depth made.start opened).Decides count →
        ∃ enough rest, ∀ allowed, enough ≤ allowed →
          (query.enumerate state).1.outcomes allowed count opened =
            ((List.range count).map fun position =>
                ((made.body.visitAll depth made.start opened).outcome position).map
                  fun solution => Pattern.project solution query.pattern made.parameters,
              rest, (made.body.visitAll depth made.start opened).stateAfter opened count)) ∧
      ((made.body.visitAll depth made.start opened).Decides 1 →
        ∃ enough, ∀ allowed, enough ≤ allowed →
          query.rule.first allowed query.pattern state =
            ((made.body.visitAll depth made.start opened).outcome 0,
              (made.body.visitAll depth made.start opened).stateAfter opened 1)) := by
  refine ⟨Goal.exists_outcomes depth count goal env state, ?_⟩
  refine ⟨_, _, Rule.instantiate_eq .., ?_, ?_, ?_⟩
  · simp only [RuleQuery.enumerate, Rule.instantiate_eq]
  · exact RuleQuery.exists_outcomes (Rule.instantiate_eq ..)
  · exact Rule.exists_first (Rule.instantiate_eq ..)

/-- Three pulls for the places that can be reached from `a`, by a goal and by a query. -/
theorem outcomes_eq_visit_onward :
    (∃ enough, ∀ allowed, enough ≤ allowed →
      ((Routes.onward.start .empty Routes.road.database).outcomes allowed 3 Routes.road).1 =
        [.found (Routes.destination (.symbol "b")), .found (Routes.destination (.symbol "c")),
          .ended]) ∧
    ∃ enough, ∀ allowed, enough ≤ allowed →
      (((RuleQuery.mk Routes.route [.value (.symbol "a"), .wildcard]).enumerate
          Routes.road).1.outcomes allowed 3
            ((RuleQuery.mk Routes.route [.value (.symbol "a"), .wildcard]).enumerate
              Routes.road).2).1 =
        [.found [.value (.symbol "a"), .value (.symbol "b")],
          .found [.value (.symbol "a"), .value (.symbol "c")], .ended] := by
  obtain ⟨goal, made, opened, built, enumerated, query, _⟩ :=
    outcomes_eq_visit 3 3 Routes.onward .empty
      ⟨Routes.route, [.value (.symbol "a"), .wildcard]⟩ Routes.road
  constructor
  · obtain ⟨enough, rest, outcomes⟩ := goal (Or.inr rfl)
    refine ⟨enough, fun allowed bound => ?_⟩
    rw [outcomes allowed bound]
    rfl
  · rw [Rule.instantiate_eq] at built
    cases built
    obtain ⟨enough, rest, outcomes⟩ := query (Or.inr rfl)
    refine ⟨enough, fun allowed bound => ?_⟩
    rw [enumerated, outcomes allowed bound]
    rfl

end GroundLogic
