import GroundLogic.Proofs.Renaming.Body
import GroundLogic.Proofs.Search.Steps

/-!
# Renaming and searching

A search that was started elsewhere, where other variables had been created, is the same search up
to a renaming, and stays so with every step: both sides take the same kind of step, and where a
call builds its body the renaming is continued to the new variables (`parallel_step`).
-/

namespace GroundLogic

variable {mapping other : Renaming} {admitted wider : Variable → Prop}

/-! ## The action on searches -/

namespace Search

def rename (mapping : Renaming) : Search → Search
  | .ended => .ended
  | .scan pattern narrowed env remaining =>
      .scan (pattern.rename mapping) (narrowed.rename mapping) (env.rename mapping) remaining
  | .join current left right =>
      .join (rename mapping current) (rename mapping left) (Goal.rename mapping right)
  | .alternative left right env =>
      .alternative (rename mapping left) (Goal.rename mapping right) (env.rename mapping)
  | .call rule arguments env =>
      .call (rule.rename mapping) (arguments.rename mapping) (env.rename mapping)
  | .returning body arguments parameters env =>
      .returning (rename mapping body) (arguments.rename mapping) (parameters.map mapping)
        (env.rename mapping)

/-- Every variable that the rest of a search may look at is admitted. -/
def Over (admitted : Variable → Prop) : Search → Prop
  | .ended => True
  | .scan pattern narrowed env _ =>
      Pattern.Over admitted pattern ∧ Pattern.Over admitted narrowed ∧ env.Over admitted
  | .join current left right =>
      Over admitted current ∧ Over admitted left ∧ Goal.Over admitted right
  | .alternative left right env =>
      Over admitted left ∧ Goal.Over admitted right ∧ env.Over admitted
  | .call rule arguments env =>
      rule.Over admitted ∧ Pattern.Over admitted arguments ∧ env.Over admitted
  | .returning body arguments parameters env =>
      Over admitted body ∧ Pattern.Over admitted arguments ∧
        (∀ parameter ∈ parameters, admitted parameter) ∧ env.Over admitted

abbrev Below (bound : Nat) (search : Search) : Prop :=
  search.Over fun unknown => unknown.id < bound

theorem Over.mono {search : Search} (isOver : search.Over admitted)
    (more : ∀ unknown, admitted unknown → wider unknown) : search.Over wider := by
  induction search with
  | ended => trivial
  | scan pattern narrowed env remaining =>
      exact ⟨isOver.1.mono more, isOver.2.1.mono more, isOver.2.2.mono more⟩
  | join current left right currentHypothesis leftHypothesis =>
      exact ⟨currentHypothesis isOver.1, leftHypothesis isOver.2.1, isOver.2.2.mono more⟩
  | alternative left right env leftHypothesis =>
      exact ⟨leftHypothesis isOver.1, isOver.2.1.mono more, isOver.2.2.mono more⟩
  | call rule arguments env =>
      exact ⟨isOver.1.mono more, isOver.2.1.mono more, isOver.2.2.mono more⟩
  | returning body arguments parameters env bodyHypothesis =>
      exact ⟨bodyHypothesis isOver.1, isOver.2.1.mono more,
        fun parameter member => more parameter (isOver.2.2.1 parameter member),
        isOver.2.2.2.mono more⟩

theorem rename_congr {search : Search} (isOver : search.Over admitted)
    (agree : ∀ unknown, admitted unknown → mapping unknown = other unknown) :
    search.rename mapping = search.rename other := by
  induction search with
  | ended => rfl
  | scan pattern narrowed env remaining =>
      simp only [rename, Pattern.rename_congr isOver.1 agree,
        Pattern.rename_congr isOver.2.1 agree, Environment.rename_congr isOver.2.2 agree]
  | join current left right currentHypothesis leftHypothesis =>
      simp only [rename, currentHypothesis isOver.1, leftHypothesis isOver.2.1,
        Goal.rename_congr isOver.2.2 agree]
  | alternative left right env leftHypothesis =>
      simp only [rename, leftHypothesis isOver.1, Goal.rename_congr isOver.2.1 agree,
        Environment.rename_congr isOver.2.2 agree]
  | call rule arguments env =>
      simp only [rename, Rule.rename_congr isOver.1 agree, Pattern.rename_congr isOver.2.1 agree,
        Environment.rename_congr isOver.2.2 agree]
  | returning body arguments parameters env bodyHypothesis =>
      have sameParameters : parameters.map mapping = parameters.map other :=
        List.map_congr_left fun parameter member =>
          agree parameter (isOver.2.2.1 parameter member)
      simp only [rename, bodyHypothesis isOver.1, Pattern.rename_congr isOver.2.1 agree,
        sameParameters, Environment.rename_congr isOver.2.2.2 agree]

theorem rename_refl (search : Search) : search.rename (.refl _) = search := by
  induction search with
  | ended => rfl
  | scan pattern narrowed env remaining =>
      simp only [rename, Pattern.rename_refl, Environment.rename_refl]
  | join current left right currentHypothesis leftHypothesis =>
      simp only [rename, currentHypothesis, leftHypothesis, Goal.rename_refl]
  | alternative left right env leftHypothesis =>
      simp only [rename, leftHypothesis, Goal.rename_refl, Environment.rename_refl]
  | call rule arguments env =>
      simp only [rename, Rule.rename_refl, Pattern.rename_refl, Environment.rename_refl]
  | returning body arguments parameters env bodyHypothesis =>
      simp only [rename, bodyHypothesis, Pattern.rename_refl, Environment.rename_refl,
        Equiv.coe_refl, List.map_id]

end Search

/-! ## Starting a goal -/

namespace Goal

theorem start_rename (mapping : Renaming) (goal : Goal) (env : Environment)
    (database : Database) :
    (start goal env database).rename mapping =
      start (Goal.rename mapping goal) (env.rename mapping) database := by
  induction goal with
  | fact relation pattern =>
      exact congrArg
        (fun narrowed => Search.scan (Pattern.rename mapping pattern) narrowed
          (env.rename mapping) (database.table relation).tuples)
        (Pattern.narrow_rename mapping env pattern)
  | conj left right leftHypothesis rightHypothesis =>
      exact congrArg (fun first => Search.join .ended first (Goal.rename mapping right))
        leftHypothesis
  | disj left right leftHypothesis rightHypothesis =>
      exact congrArg
        (fun first => Search.alternative first (Goal.rename mapping right) (env.rename mapping))
        leftHypothesis
  | call rule arguments =>
      exact congrArg
        (fun narrowed => Search.call (rule.rename mapping) narrowed (env.rename mapping))
        (Pattern.narrow_rename mapping env arguments)

/-- What is searched depends on the stored facts only. -/
theorem start_congr {first second : Database} (same : first.SameFacts second) (goal : Goal)
    (env : Environment) : start goal env first = start goal env second := by
  induction goal with
  | fact relation pattern => simp only [start, same relation]
  | conj left right leftHypothesis rightHypothesis => simp only [start, leftHypothesis]
  | disj left right leftHypothesis rightHypothesis => simp only [start, leftHypothesis]
  | call rule arguments => rfl

theorem over_start {goal : Goal} {env : Environment} (goalOver : Goal.Over admitted goal)
    (envOver : env.Over admitted) (database : Database) :
    (start goal env database).Over admitted := by
  induction goal with
  | fact relation pattern => exact ⟨goalOver, Pattern.over_narrow goalOver, envOver⟩
  | conj left right leftHypothesis rightHypothesis =>
      exact ⟨trivial, leftHypothesis goalOver.1, goalOver.2⟩
  | disj left right leftHypothesis rightHypothesis =>
      exact ⟨leftHypothesis goalOver.1, goalOver.2, envOver⟩
  | call rule arguments => exact ⟨goalOver.1, Pattern.over_narrow goalOver.2, envOver⟩

end Goal

/-! ## Steps on both sides -/

/-- Two steps, taken where `first` and `second` variables had been created, that are the same up to
a renaming which grows out of the given one. -/
inductive Step.Parallel (mapping : Renaming) (first second : Nat) :
    Step × State → Step × State → Prop
  | answer {extended : Renaming} {env renamedEnv : Environment} {rest renamedRest : Search}
      {firstAfter secondAfter : State}
      (growth : mapping.Growth first second extended firstAfter.nextId secondAfter.nextId)
      (sameEnv : renamedEnv = env.rename extended)
      (sameRest : renamedRest = rest.rename extended)
      (envOver : env.Over (extended.Shared firstAfter.nextId secondAfter.nextId))
      (restOver : rest.Over (extended.Shared firstAfter.nextId secondAfter.nextId)) :
      Parallel mapping first second (.answer env rest, firstAfter)
        (.answer renamedEnv renamedRest, secondAfter)
  | silent {extended : Renaming} {rest renamedRest : Search} {firstAfter secondAfter : State}
      (growth : mapping.Growth first second extended firstAfter.nextId secondAfter.nextId)
      (sameRest : renamedRest = rest.rename extended)
      (restOver : rest.Over (extended.Shared firstAfter.nextId secondAfter.nextId)) :
      Parallel mapping first second (.silent rest, firstAfter) (.silent renamedRest, secondAfter)
  | finished {firstAfter secondAfter : State} :
      Parallel mapping first second (.finished, firstAfter) (.finished, secondAfter)

namespace Search

theorem parallel_call {rule : Rule} {arguments : Pattern} {env : Environment}
    {first second : State} (same : first.database.SameFacts second.database)
    (isOver : (Search.call rule arguments env).Over
      (mapping.Shared first.nextId second.nextId)) :
    Step.Parallel mapping first.nextId second.nextId
      ((Search.call rule arguments env).step first)
      (((Search.call rule arguments env).rename mapping).step second) := by
  obtain ⟨ruleOver, argumentsOver, envOver⟩ := isOver
  obtain ⟨extended, agree, moves⟩ :=
    mapping.exists_extension first.nextId second.nextId rule.template.frameSize
  have firstOrder := rule.precedes_entered arguments first
  have secondOrder := (rule.rename mapping).precedes_entered (arguments.rename mapping) second
  have firstFrame := rule.frame_le_entered arguments first
  have secondFrame := (rule.rename mapping).frame_le_entered (arguments.rename mapping) second
  rw [Rule.template_rename] at secondFrame
  have growth : mapping.Growth first.nextId second.nextId extended
      (rule.entered arguments first).nextId
      ((rule.rename mapping).entered (arguments.rename mapping) second).nextId :=
    ⟨firstOrder.nextId_le, secondOrder.nextId_le, agree⟩
  have frame : ∀ position < rule.template.frameSize,
      extended.Shared (rule.entered arguments first).nextId
        ((rule.rename mapping).entered (arguments.rename mapping) second).nextId
        ⟨first.nextId + position⟩ := by
    intro position bound
    refine ⟨Nat.lt_of_lt_of_le ?_ firstFrame, ?_⟩
    · exact Nat.add_lt_add_left bound _
    · rw [moves position bound]
      exact Nat.lt_of_lt_of_le (Nat.add_lt_add_left bound _) secondFrame
  have sameAfter : (rule.entered arguments first).database.SameFacts
      ((rule.rename mapping).entered (arguments.rename mapping) second).database :=
    firstOrder.sameFacts.symm.trans (same.trans secondOrder.sameFacts)
  rw [rename, step_call, step_call]
  refine .silent growth ?_ ?_
  · simp only [rename, Goal.start_rename]
    rw [Rule.body_rename moves, Rule.entry_rename moves, Rule.parameters_rename moves,
      ← Rule.rename_congr ruleOver agree, ← Pattern.rename_congr argumentsOver agree,
      ← Environment.rename_congr envOver agree, Goal.start_congr sameAfter]
  · refine ⟨Goal.over_start ?_ ?_ _, argumentsOver.mono growth.shared, ?_,
      envOver.mono growth.shared⟩
    · exact Rule.over_body (ruleOver.mono growth.shared) frame
    · exact Rule.over_entry frame arguments
    · intro parameter member
      obtain ⟨position, inRange, rfl⟩ := List.mem_map.1 member
      exact frame position
        (Nat.lt_of_lt_of_le (List.mem_range.1 inRange) (Nat.le_add_right ..))

section Compound

variable {current left body : Search} {right : Goal} {env : Environment} {arguments : Pattern}
  {parameters : List Variable} {first second : State}

/-- A search for a right goal that is over leaves both states as they were. -/
theorem parallel_left (same : first.database.SameFacts second.database)
    (rightOver : Goal.Over (mapping.Shared first.nextId second.nextId) right)
    (currentStep : current.step first = (.finished, first))
    (renamedStep : (current.rename mapping).step second = (.finished, second))
    (parallel : Step.Parallel mapping first.nextId second.nextId (left.step first)
      ((left.rename mapping).step second)) :
    Step.Parallel mapping first.nextId second.nextId ((Search.join current left right).step first)
      (((Search.join current left right).rename mapping).step second) := by
  have firstOrder := precedes_step left first
  have secondOrder := precedes_step (left.rename mapping) second
  generalize leftStep : left.step first = outcome,
    renamedLeftStep : (left.rename mapping).step second = renamedOutcome
    at parallel firstOrder secondOrder
  cases parallel with
  | answer growth sameEnv sameRest envOver restOver =>
      have sameLater := firstOrder.sameFacts.symm.trans (same.trans secondOrder.sameFacts)
      simp only [rename, step, currentStep, renamedStep, leftStep, renamedLeftStep]
      refine .silent growth ?_
        ⟨Goal.over_start (rightOver.mono growth.shared) envOver _, restOver,
          rightOver.mono growth.shared⟩
      rw [sameEnv, sameRest, Goal.rename_congr rightOver growth.agree,
        ← Goal.start_congr sameLater, ← Goal.start_rename]
      rfl
  | silent growth sameRest restOver =>
      simp only [rename, step, currentStep, renamedStep, leftStep, renamedLeftStep]
      refine .silent growth ?_ ⟨trivial, restOver, rightOver.mono growth.shared⟩
      rw [sameRest, Goal.rename_congr rightOver growth.agree]
      rfl
  | finished =>
      simp only [rename, step, currentStep, renamedStep, leftStep, renamedLeftStep]
      exact .finished

theorem parallel_join (same : first.database.SameFacts second.database)
    (leftOver : left.Over (mapping.Shared first.nextId second.nextId))
    (rightOver : Goal.Over (mapping.Shared first.nextId second.nextId) right)
    (parallel : Step.Parallel mapping first.nextId second.nextId (current.step first)
      ((current.rename mapping).step second))
    (leftParallel : Step.Parallel mapping first.nextId second.nextId (left.step first)
      ((left.rename mapping).step second)) :
    Step.Parallel mapping first.nextId second.nextId ((Search.join current left right).step first)
      (((Search.join current left right).rename mapping).step second) := by
  generalize currentStep : current.step first = outcome,
    renamedStep : (current.rename mapping).step second = renamedOutcome at parallel
  cases parallel with
  | answer growth sameEnv sameRest envOver restOver =>
      simp only [rename, step, currentStep, renamedStep]
      refine .answer growth sameEnv ?_ envOver
        ⟨restOver, leftOver.mono growth.shared, rightOver.mono growth.shared⟩
      rw [sameRest, rename_congr leftOver growth.agree, Goal.rename_congr rightOver growth.agree]
      rfl
  | silent growth sameRest restOver =>
      simp only [rename, step, currentStep, renamedStep]
      refine .silent growth ?_
        ⟨restOver, leftOver.mono growth.shared, rightOver.mono growth.shared⟩
      rw [sameRest, rename_congr leftOver growth.agree, Goal.rename_congr rightOver growth.agree]
      rfl
  | finished =>
      obtain ⟨_, rfl⟩ := finished_iff.1 currentStep
      obtain ⟨_, rfl⟩ := finished_iff.1 renamedStep
      exact parallel_left same rightOver currentStep renamedStep leftParallel

theorem parallel_alternative (same : first.database.SameFacts second.database)
    (rightOver : Goal.Over (mapping.Shared first.nextId second.nextId) right)
    (envOver : env.Over (mapping.Shared first.nextId second.nextId))
    (parallel : Step.Parallel mapping first.nextId second.nextId (left.step first)
      ((left.rename mapping).step second)) :
    Step.Parallel mapping first.nextId second.nextId
      ((Search.alternative left right env).step first)
      (((Search.alternative left right env).rename mapping).step second) := by
  generalize leftStep : left.step first = outcome,
    renamedStep : (left.rename mapping).step second = renamedOutcome at parallel
  cases parallel with
  | answer growth sameEnv sameRest foundOver restOver =>
      simp only [rename, step, leftStep, renamedStep]
      refine .answer growth sameEnv ?_ foundOver
        ⟨restOver, rightOver.mono growth.shared, envOver.mono growth.shared⟩
      rw [sameRest, Goal.rename_congr rightOver growth.agree,
        Environment.rename_congr envOver growth.agree]
      rfl
  | silent growth sameRest restOver =>
      simp only [rename, step, leftStep, renamedStep]
      refine .silent growth ?_
        ⟨restOver, rightOver.mono growth.shared, envOver.mono growth.shared⟩
      rw [sameRest, Goal.rename_congr rightOver growth.agree,
        Environment.rename_congr envOver growth.agree]
      rfl
  | finished =>
      obtain ⟨_, rfl⟩ := finished_iff.1 leftStep
      obtain ⟨_, rfl⟩ := finished_iff.1 renamedStep
      simp only [rename, step, leftStep, renamedStep]
      refine .silent (.refl mapping _ _) ?_ (Goal.over_start rightOver envOver _)
      rw [Goal.start_rename, Goal.start_congr same]

theorem parallel_returning
    (argumentsOver : Pattern.Over (mapping.Shared first.nextId second.nextId) arguments)
    (parametersOver : ∀ parameter ∈ parameters,
      mapping.Shared first.nextId second.nextId parameter)
    (envOver : env.Over (mapping.Shared first.nextId second.nextId))
    (parallel : Step.Parallel mapping first.nextId second.nextId (body.step first)
      ((body.rename mapping).step second)) :
    Step.Parallel mapping first.nextId second.nextId
      ((Search.returning body arguments parameters env).step first)
      (((Search.returning body arguments parameters env).rename mapping).step second) := by
  generalize bodyStep : body.step first = outcome,
    renamedStep : (body.rename mapping).step second = renamedOutcome at parallel
  cases parallel with
  | @answer extended found _ rest _ firstAfter secondAfter growth sameEnv sameRest foundOver
      restOver =>
      have restOver : (Search.returning rest arguments parameters env).Over
          (extended.Shared firstAfter.nextId secondAfter.nextId) :=
        ⟨restOver, argumentsOver.mono growth.shared,
          fun parameter member => growth.shared parameter (parametersOver parameter member),
          envOver.mono growth.shared⟩
      simp only [rename, step, bodyStep, renamedStep]
      rw [sameEnv, sameRest, growth.map_eq parametersOver,
        Pattern.rename_congr argumentsOver growth.agree,
        Environment.rename_congr envOver growth.agree, Pattern.bindBack_rename]
      cases returned : Pattern.bindBack found arguments parameters env with
      | none => exact .silent growth rfl restOver
      | some extendedEnv =>
          refine .answer growth rfl rfl ?_ restOver
          exact Pattern.over_of_bindBack (argumentsOver.mono growth.shared)
            (envOver.mono growth.shared) returned
  | silent growth sameRest restOver =>
      simp only [rename, step, bodyStep, renamedStep]
      refine .silent growth ?_
        ⟨restOver, argumentsOver.mono growth.shared,
          fun parameter member => growth.shared parameter (parametersOver parameter member),
          envOver.mono growth.shared⟩
      rw [sameRest, growth.map_eq parametersOver,
        Pattern.rename_congr argumentsOver growth.agree,
        Environment.rename_congr envOver growth.agree]
      rfl
  | finished =>
      simp only [rename, step, bodyStep, renamedStep]
      exact .finished

end Compound

/-- A search and its renaming take steps of the same kind. -/
theorem parallel_step {search : Search} {first second : State}
    (same : first.database.SameFacts second.database)
    (isOver : search.Over (mapping.Shared first.nextId second.nextId)) :
    Step.Parallel mapping first.nextId second.nextId (search.step first)
      ((search.rename mapping).step second) := by
  induction search with
  | ended => exact .finished
  | scan pattern narrowed env remaining =>
      simp only [rename, step, Pattern.nextMatch_rename]
      cases found : Pattern.nextMatch pattern narrowed env remaining with
      | none => exact .finished
      | some next =>
          refine .answer (.refl mapping _ _) rfl rfl ?_ isOver
          exact Pattern.over_of_nextMatch isOver.1 isOver.2.2 found
  | join current left right currentHypothesis leftHypothesis =>
      obtain ⟨currentOver, leftOver, rightOver⟩ := isOver
      exact parallel_join same leftOver rightOver (currentHypothesis currentOver)
        (leftHypothesis leftOver)
  | alternative left right env leftHypothesis =>
      obtain ⟨leftOver, rightOver, envOver⟩ := isOver
      exact parallel_alternative same rightOver envOver (leftHypothesis leftOver)
  | call rule arguments env => exact parallel_call same isOver
  | returning body arguments parameters env bodyHypothesis =>
      obtain ⟨bodyOver, argumentsOver, parametersOver, envOver⟩ := isOver
      exact parallel_returning argumentsOver parametersOver envOver (bodyHypothesis bodyOver)

/-! ## Variables that exist -/

section Below

variable {search rest : Search} {state after : State} {env : Environment}

theorem parallel_self (below : search.Below state.nextId) :
    Step.Parallel (.refl _) state.nextId state.nextId (search.step state)
      ((search.rename (.refl _)).step state) :=
  parallel_step (.refl _) (below.mono fun _ bound => ⟨bound, bound⟩)

/-- A search only ever knows variables that have been created. -/
theorem below_of_answer (below : search.Below state.nextId)
    (stepped : search.step state = (.answer env rest, after)) :
    env.Below after.nextId ∧ rest.Below after.nextId := by
  have parallel := parallel_self below
  rw [stepped] at parallel
  generalize (search.rename (.refl _)).step state = renamedOutcome at parallel
  cases parallel with
  | answer growth sameEnv sameRest envOver restOver =>
      exact ⟨envOver.mono fun _ shared => shared.1, restOver.mono fun _ shared => shared.1⟩

theorem below_of_silent (below : search.Below state.nextId)
    (stepped : search.step state = (.silent rest, after)) : rest.Below after.nextId := by
  have parallel := parallel_self below
  rw [stepped] at parallel
  generalize (search.rename (.refl _)).step state = renamedOutcome at parallel
  cases parallel with
  | silent growth sameRest restOver => exact restOver.mono fun _ shared => shared.1

end Below

/-! ## Pulls on both sides -/

/-- A pull on a renamed search, in a state where other variables exist, has the same outcome and
leaves the same search, up to a renaming that grows out of the given one. -/
theorem exists_pull_rename (fuel : Nat) {search : Search} {first second : State}
    (same : first.database.SameFacts second.database)
    (isOver : search.Over (mapping.Shared first.nextId second.nextId)) :
    ∃ extended : Renaming,
      mapping.Growth first.nextId second.nextId extended
        (search.pull fuel first).2.2.nextId
        ((search.rename mapping).pull fuel second).2.2.nextId ∧
      ((search.rename mapping).pull fuel second).1 =
        (search.pull fuel first).1.map (Environment.rename extended) ∧
      ((search.rename mapping).pull fuel second).2.1 =
        (search.pull fuel first).2.1.rename extended ∧
      (search.pull fuel first).2.1.Over
        (extended.Shared (search.pull fuel first).2.2.nextId
          ((search.rename mapping).pull fuel second).2.2.nextId) := by
  induction fuel generalizing mapping search first second with
  | zero => exact ⟨mapping, .refl mapping _ _, rfl, rfl, isOver⟩
  | succ fuel inductionHypothesis =>
      have parallel := parallel_step same isOver
      have firstOrder := precedes_step search first
      have secondOrder := precedes_step (search.rename mapping) second
      simp only [pull]
      generalize searchStep : search.step first = outcome,
        renamedStep : (search.rename mapping).step second = renamedOutcome
        at parallel firstOrder secondOrder
      cases parallel with
      | @answer extended env _ rest _ firstAfter secondAfter growth sameEnv sameRest envOver
          restOver =>
          exact ⟨extended, growth, congrArg Pull.found sameEnv, sameRest, restOver⟩
      | silent growth sameRest restOver =>
          have sameAfter := firstOrder.sameFacts.symm.trans (same.trans secondOrder.sameFacts)
          obtain ⟨extended, laterGrowth, outcomes, rests, laterOver⟩ :=
            inductionHypothesis sameAfter restOver
          rw [← sameRest] at laterGrowth outcomes rests laterOver
          exact ⟨extended, growth.trans laterGrowth, outcomes, rests, laterOver⟩
      | finished =>
          obtain ⟨_, sameFirst⟩ := finished_iff.1 searchStep
          obtain ⟨_, sameSecond⟩ := finished_iff.1 renamedStep
          rw [sameFirst, sameSecond]
          exact ⟨mapping, .refl mapping _ _, rfl, rfl, isOver⟩

end Search

end GroundLogic
