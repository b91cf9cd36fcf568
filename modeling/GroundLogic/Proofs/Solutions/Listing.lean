import GroundLogic.Proofs.Renaming.Searches

/-!
# The solutions of a goal as a list

`Goal.Lists` reads the solutions of a goal off its structure, without a search: those of a
conjunction are the solutions of the right goal at each solution of the left one, and those of a
call are the solutions of one body, bound back.  A search that comes to its end has given exactly
the solutions that are listed (`underway_of_take`); at any moment before, it is `Underway`.
-/

namespace GroundLogic

namespace Goal

/-- The solutions of a goal in an environment, in order.  Each branch of a conjunction is a solution
of the left goal with the solutions of the right goal at it.  The body of a call may have been built
at any base that is free. -/
inductive Lists (database : Database) : Goal → Environment → List Environment → Prop
  | fact {relation : Relation} {pattern : Pattern} {env : Environment} :
      Lists database (.fact relation pattern) env
        (Pattern.answers pattern (pattern.narrow env) env (database.table relation).tuples)
  | conj {left right : Goal} {env : Environment}
      {branches : List (Environment × List Environment)}
      (first : Lists database left env (branches.map Prod.fst))
      (each : ∀ branch ∈ branches, Lists database right branch.1 branch.2) :
      Lists database (.conj left right) env (branches.flatMap Prod.snd)
  | disj {left right : Goal} {env : Environment} {early late : List Environment}
      (first : Lists database left env early) (second : Lists database right env late) :
      Lists database (.disj left right) env (early ++ late)
  | call {rule : Rule} {arguments : Pattern} {env : Environment} {base : Nat}
      {found : List Environment}
      (fresh : (Search.call rule (Pattern.narrow env arguments) env).Below base)
      (body : Lists database (rule.body base) (rule.entry (Pattern.narrow env arguments) base)
        found) :
      Lists database (.call rule arguments) env
        (found.filterMap fun answer =>
          Pattern.bindBack answer (Pattern.narrow env arguments) (rule.parameters base) env)

/-- The search evaluates the goal in the environment and has given these solutions so far. -/
inductive Underway (database : Database) :
    Goal → Environment → Search → List Environment → Prop
  | scan {relation : Relation} {pattern : Pattern} {env : Environment}
      {seen remaining : List Tuple}
      (split : (database.table relation).tuples = seen ++ remaining) :
      Underway database (.fact relation pattern) env
        (.scan pattern (pattern.narrow env) env remaining)
        (Pattern.answers pattern (pattern.narrow env) env seen)
  | idle {left right : Goal} {env : Environment} {first : Search}
      {branches : List (Environment × List Environment)}
      (early : Underway database left env first (branches.map Prod.fst))
      (each : ∀ branch ∈ branches, Lists database right branch.1 branch.2) :
      Underway database (.conj left right) env (.join .ended first right)
        (branches.flatMap Prod.snd)
  | join {left right : Goal} {env middle : Environment} {first current : Search}
      {branches : List (Environment × List Environment)} {given : List Environment}
      (early : Underway database left env first (branches.map Prod.fst ++ [middle]))
      (each : ∀ branch ∈ branches, Lists database right branch.1 branch.2)
      (late : Underway database right middle current given) :
      Underway database (.conj left right) env (.join current first right)
        (branches.flatMap Prod.snd ++ given)
  | left {left right : Goal} {env : Environment} {first : Search} {given : List Environment}
      (early : Underway database left env first given) :
      Underway database (.disj left right) env (.alternative first right env) given
  | right {left right : Goal} {env : Environment} {second : Search}
      {before given : List Environment}
      (early : Lists database left env before)
      (late : Underway database right env second given) :
      Underway database (.disj left right) env second (before ++ given)
  | call {rule : Rule} {arguments : Pattern} {env : Environment} :
      Underway database (.call rule arguments) env
        (.call rule (Pattern.narrow env arguments) env) []
  | returning {rule : Rule} {arguments : Pattern} {env : Environment} {base : Nat}
      {body : Search} {found : List Environment}
      (fresh : (Search.call rule (Pattern.narrow env arguments) env).Below base)
      (inside : Underway database (rule.body base)
        (rule.entry (Pattern.narrow env arguments) base) body found) :
      Underway database (.call rule arguments) env
        (.returning body (Pattern.narrow env arguments) (rule.parameters base) env)
        (found.filterMap fun answer =>
          Pattern.bindBack answer (Pattern.narrow env arguments) (rule.parameters base) env)

variable {database : Database} {goal : Goal} {env : Environment} {search rest : Search}
  {given answers : List Environment} {state after : State}

/-! ## Solutions extend the environment -/

theorem Lists.extends (lists : Lists database goal env answers) :
    ∀ answer ∈ answers, answer.Extends env := by
  induction lists with
  | fact =>
      intro answer member
      obtain ⟨tuple, _, _, unified⟩ := Pattern.exists_of_mem_answers member
      exact Pattern.extends_of_unify unified
  | conj _ _ firstHypothesis eachHypothesis =>
      intro answer member
      obtain ⟨branch, branchMember, answered⟩ := List.mem_flatMap.1 member
      exact (eachHypothesis branch branchMember answer answered).trans
        (firstHypothesis branch.1 (List.mem_map_of_mem branchMember))
  | disj _ _ firstHypothesis secondHypothesis =>
      intro answer member
      rcases List.mem_append.1 member with early | late
      · exact firstHypothesis answer early
      · exact secondHypothesis answer late
  | call =>
      intro answer member
      obtain ⟨found, _, returned⟩ := List.mem_filterMap.1 member
      exact Pattern.extends_of_bindBack returned

/-- Solutions bind variables of the environment and variables that are written in the goal. -/
theorem Lists.over {admitted : Variable → Prop} (lists : Lists database goal env answers)
    (goalOver : Pattern.Over admitted (Formula.arguments goal)) (envOver : env.Over admitted) :
    ∀ answer ∈ answers, answer.Over admitted := by
  induction lists with
  | fact =>
      intro answer member
      obtain ⟨tuple, _, _, unified⟩ := Pattern.exists_of_mem_answers member
      exact Pattern.over_of_unify goalOver envOver unified
  | conj _ _ firstHypothesis eachHypothesis =>
      obtain ⟨leftOver, rightOver⟩ := Pattern.over_append.1 goalOver
      intro answer member
      obtain ⟨branch, branchMember, answered⟩ := List.mem_flatMap.1 member
      have branchOver := firstHypothesis leftOver envOver branch.1 (List.mem_map_of_mem branchMember)
      exact eachHypothesis branch branchMember rightOver branchOver answer answered
  | disj _ _ firstHypothesis secondHypothesis =>
      obtain ⟨leftOver, rightOver⟩ := Pattern.over_append.1 goalOver
      intro answer member
      rcases List.mem_append.1 member with early | late
      · exact firstHypothesis leftOver envOver answer early
      · exact secondHypothesis rightOver envOver answer late
  | call =>
      intro answer member
      obtain ⟨found, _, returned⟩ := List.mem_filterMap.1 member
      exact Pattern.over_of_bindBack (Pattern.over_narrow goalOver) envOver returned

theorem Underway.extends (underway : Underway database goal env search given) :
    ∀ answer ∈ given, answer.Extends env := by
  induction underway with
  | scan =>
      intro answer member
      obtain ⟨tuple, _, _, unified⟩ := Pattern.exists_of_mem_answers member
      exact Pattern.extends_of_unify unified
  | idle _ each earlyHypothesis =>
      intro answer member
      obtain ⟨branch, branchMember, answered⟩ := List.mem_flatMap.1 member
      exact ((each branch branchMember).extends answer answered).trans
        (earlyHypothesis branch.1 (List.mem_map_of_mem branchMember))
  | join _ each _ earlyHypothesis lateHypothesis =>
      intro answer member
      rcases List.mem_append.1 member with before | now
      · obtain ⟨branch, branchMember, answered⟩ := List.mem_flatMap.1 before
        exact ((each branch branchMember).extends answer answered).trans
          (earlyHypothesis branch.1 (List.mem_append_left _ (List.mem_map_of_mem branchMember)))
      · exact (lateHypothesis answer now).trans
          (earlyHypothesis _ (List.mem_append_right _ (List.mem_singleton_self _)))
  | left _ earlyHypothesis => exact earlyHypothesis
  | right early _ lateHypothesis =>
      intro answer member
      rcases List.mem_append.1 member with before | now
      · exact early.extends answer before
      · exact lateHypothesis answer now
  | call => exact fun answer member => absurd member List.not_mem_nil
  | returning =>
      intro answer member
      obtain ⟨found, _, returned⟩ := List.mem_filterMap.1 member
      exact Pattern.extends_of_bindBack returned

/-! ## Evaluation -/

theorem underway_start (database : Database) (goal : Goal) (env : Environment) :
    Underway database goal env (Goal.start goal env database) [] := by
  induction goal with
  | fact relation pattern => exact .scan (List.nil_append _).symm
  | conj left right leftHypothesis rightHypothesis =>
      exact @Underway.idle database left right env _ [] leftHypothesis fun branch member =>
        absurd member List.not_mem_nil
  | disj left right leftHypothesis rightHypothesis => exact .left leftHypothesis
  | call rule arguments => exact .call

/-- What a step makes of an evaluation under way. -/
def Advances (database : Database) (goal : Goal) (env : Environment)
    (given : List Environment) : Step → Prop
  | .answer found rest => Underway database goal env rest (given ++ [found])
  | .silent rest => Underway database goal env rest given
  | .finished => Lists database goal env given

/-- When the right goal is done with, a conjunction goes on with the left one. -/
private theorem advances_left {left right : Goal} {first current : Search}
    {branches : List (Environment × List Environment)}
    (same : state.database.SameFacts database)
    (exhausted : current.step state = (.finished, state))
    (each : ∀ branch ∈ branches, Lists database right branch.1 branch.2)
    (early : Advances database left env (branches.map Prod.fst) (first.step state).1) :
    Advances database (.conj left right) env (branches.flatMap Prod.snd)
      ((Search.join current first right).step state).1 := by
  have order := Search.precedes_step first state
  rcases firstStep : first.step state with ⟨found | _ | _, after⟩ <;>
    simp only [Search.step, exhausted, firstStep] <;>
    rw [firstStep] at early order
  · rw [start_congr (order.sameFacts.symm.trans same)]
    have joined := Underway.join early each (underway_start database right found)
    rw [List.append_nil] at joined
    exact joined
  · exact .idle early each
  · exact .conj early each

private theorem advances_join {left right : Goal} {first current : Search} {middle : Environment}
    {branches : List (Environment × List Environment)}
    (same : state.database.SameFacts database)
    (each : ∀ branch ∈ branches, Lists database right branch.1 branch.2)
    (early : Underway database left env first (branches.map Prod.fst ++ [middle]))
    (earlyStep : Advances database left env (branches.map Prod.fst ++ [middle])
      (first.step state).1)
    (lateStep : Advances database right middle given (current.step state).1) :
    Advances database (.conj left right) env (branches.flatMap Prod.snd ++ given)
      ((Search.join current first right).step state).1 := by
  rcases currentStep : current.step state with ⟨found | _ | _, after⟩ <;>
    rw [currentStep] at lateStep
  · simp only [Search.step, currentStep, Advances, List.append_assoc]
    exact .join early each lateStep
  · simp only [Search.step, currentStep]
    exact .join early each lateStep
  · obtain ⟨_, rfl⟩ := Search.finished_iff.1 currentStep
    have eachNow : ∀ branch ∈ branches ++ [(middle, given)],
        Lists database right branch.1 branch.2 := by
      intro branch member
      rcases List.mem_append.1 member with before | now
      · exact each branch before
      · rw [List.mem_singleton.1 now]
        exact lateStep
    have branchHeads : (branches ++ [(middle, given)]).map Prod.fst =
        branches.map Prod.fst ++ [middle] := by
      rw [List.map_append]
      rfl
    have branchTails : (branches ++ [(middle, given)]).flatMap Prod.snd =
        branches.flatMap Prod.snd ++ given := by
      rw [List.flatMap_append, List.flatMap_singleton]
    rw [← branchTails]
    rw [← branchHeads] at earlyStep
    exact advances_left same currentStep eachNow earlyStep

private theorem advances_returning {rule : Rule} {arguments : Pattern} {base : Nat}
    {body : Search} {found : List Environment}
    (fresh : (Search.call rule (Pattern.narrow env arguments) env).Below base)
    (insideStep : Advances database (rule.body base)
      (rule.entry (Pattern.narrow env arguments) base) found (body.step state).1) :
    Advances database (.call rule arguments) env
      (found.filterMap fun answer =>
        Pattern.bindBack answer (Pattern.narrow env arguments) (rule.parameters base) env)
      ((Search.returning body (Pattern.narrow env arguments) (rule.parameters base) env).step
        state).1 := by
  rcases bodyStep : body.step state with ⟨answer | _ | _, after⟩ <;>
    rw [bodyStep] at insideStep <;> simp only [Search.step, bodyStep]
  · have advanced := Underway.returning fresh insideStep
    rw [List.filterMap_append] at advanced
    cases returned : Pattern.bindBack answer (Pattern.narrow env arguments)
        (rule.parameters base) env with
    | none =>
        simp only [List.filterMap_cons, returned, List.filterMap_nil, List.append_nil]
          at advanced
        exact advanced
    | some extended =>
        simp only [List.filterMap_cons, returned, List.filterMap_nil] at advanced
        exact advanced
  · exact .returning fresh insideStep
  · exact .call fresh insideStep

theorem Underway.step (underway : Underway database goal env search given)
    (same : state.database.SameFacts database) (below : search.Below state.nextId) :
    Advances database goal env given (search.step state).1 := by
  induction underway with
  | @scan relation pattern env seen remaining split =>
      simp only [Search.step]
      cases found : Pattern.nextMatch pattern (pattern.narrow env) env remaining with
      | none =>
          have whole := Pattern.answers_append pattern (pattern.narrow env) env seen remaining
          rw [← split, Pattern.nextMatch_eq_none_iff.1 found, List.append_nil] at whole
          rw [← whole]
          exact .fact
      | some next =>
          obtain ⟨passed, splitRest, once⟩ := Pattern.exists_of_nextMatch found
          rw [splitRest, ← List.append_assoc] at split
          simp only [Advances]
          rw [← once, ← Pattern.answers_append]
          exact .scan split
  | idle early each earlyHypothesis =>
      exact advances_left same rfl each (earlyHypothesis below.2.1)
  | join early each late earlyHypothesis lateHypothesis =>
      exact advances_join same each early (earlyHypothesis below.2.1) (lateHypothesis below.1)
  | @left left right env first given early earlyHypothesis =>
      have earlyStep := earlyHypothesis below.1
      rcases firstStep : first.step state with ⟨found | _ | _, after⟩ <;>
        rw [firstStep] at earlyStep <;> simp only [Search.step, firstStep]
      · exact .left earlyStep
      · exact .left earlyStep
      · obtain ⟨_, rfl⟩ := Search.finished_iff.1 firstStep
        rw [start_congr same]
        have started := Underway.right earlyStep (underway_start database right env)
        rw [List.append_nil] at started
        exact started
  | @right left right env second before given early late lateHypothesis =>
      have lateStep := lateHypothesis below
      rcases secondStep : (second.step state).1 with found | _ | _ <;>
        rw [secondStep] at lateStep
      · simp only [Advances, List.append_assoc]
        exact .right early lateStep
      · exact .right early lateStep
      · exact .disj early lateStep
  | @call rule arguments env =>
      rw [Search.step_call]
      simp only
      rw [start_congr ((rule.precedes_entered _ state).sameFacts.symm.trans same)]
      exact .returning below (underway_start database _ _)
  | returning fresh inside insideHypothesis =>
      exact advances_returning fresh (insideHypothesis below.1)

theorem underway_of_steps {trace : List (Environment × State)}
    (steps : search.Steps state trace rest after)
    (underway : Underway database goal env search given)
    (same : state.database.SameFacts database) (below : search.Below state.nextId) :
    Underway database goal env rest (given ++ trace.map Prod.fst) ∧
      after.database.SameFacts database ∧ rest.Below after.nextId := by
  induction steps generalizing given with
  | refl => exact ⟨by rwa [List.map_nil, List.append_nil], same, below⟩
  | @silent search next rest state middle after trace stepped steps inductionHypothesis =>
      have advanced := underway.step same below
      have order := Search.precedes_of_step stepped
      rw [stepped] at advanced
      exact inductionHypothesis advanced (order.sameFacts.symm.trans same)
        (Search.below_of_silent below stepped)
  | @answer search next rest state middle after found trace stepped steps inductionHypothesis =>
      have advanced := underway.step same below
      have order := Search.precedes_of_step stepped
      rw [stepped] at advanced
      have later := inductionHypothesis advanced (order.sameFacts.symm.trans same)
        (Search.below_of_answer below stepped).2
      rw [List.append_assoc] at later
      exact later

/-- Pulling gives solutions in the order in which they are listed; when the stream ends these are
all. -/
theorem underway_of_take {fuel wanted : Nat} {batch : Batch Environment}
    (goalBelow : Goal.Below state.nextId goal) (envBelow : env.Below state.nextId)
    (taken : (Goal.start goal env state.database).take fuel wanted state = (batch, rest, after)) :
    Underway state.database goal env rest batch.answers ∧
      (batch.completion = .ended → Lists state.database goal env batch.answers) := by
  obtain ⟨trace, steps, answers, completion⟩ := Search.steps_of_take taken
  obtain ⟨underway, same, below⟩ := underway_of_steps steps
    (underway_start state.database goal env) (.refl _) (over_start goalBelow envBelow _)
  rw [List.nil_append, answers] at underway
  refine ⟨underway, fun ended => ?_⟩
  have advanced := underway.step same below
  rw [Search.step_of_exhausted (completion ended)] at advanced
  exact advanced

end Goal

end GroundLogic
