import GroundLogic.Proofs.State.Precedence

/-!
# Runs of a search

`Search.Steps` says that a search gets from one place to another in finitely many steps, and with
which answers on the way, each with the state in which it was found.  Pulling is running: what a
sequence of pulls returns are the answers of a run (`steps_of_take`), and a run to the end is what
enough pulls with enough steps each go through (`exists_take`).

A step has an effect on the state only where it enters a call, and then the effect is to enter it
(`effect_step`): whatever a search does to the state is read off the calls that it enters.
-/

namespace GroundLogic

namespace Search

variable {search rest next : Search} {state after final : State} {env : Environment}

/-! ## One step -/

/-- Nothing is left to be searched. -/
def Exhausted : Search → Prop
  | .ended => True
  | .scan pattern narrowed env remaining =>
      Pattern.nextMatch pattern narrowed env remaining = none
  | .join current left _ => current.Exhausted ∧ left.Exhausted
  | .alternative _ _ _ => False
  | .call _ _ _ => False
  | .returning body _ _ _ => body.Exhausted

theorem step_of_exhausted (exhausted : search.Exhausted) (state : State) :
    search.step state = (.finished, state) := by
  induction search with
  | ended => rfl
  | scan pattern narrowed env remaining =>
      simp only [Exhausted] at exhausted
      simp only [step, exhausted]
  | join current left right currentHypothesis leftHypothesis =>
      simp only [step, currentHypothesis exhausted.1, leftHypothesis exhausted.2]
  | alternative left right env leftHypothesis => exact exhausted.elim
  | call rule arguments env => exact exhausted.elim
  | returning body arguments parameters env bodyHypothesis =>
      simp only [step, bodyHypothesis exhausted]

theorem exhausted_of_step (finished : search.step state = (.finished, after)) :
    search.Exhausted := by
  induction search generalizing state after with
  | ended => trivial
  | scan pattern narrowed env remaining =>
      simp only [step] at finished
      split at finished
      · cases finished
      · assumption
  | join current left right currentHypothesis leftHypothesis =>
      simp only [step] at finished
      rcases currentStep : current.step state with ⟨_ | _ | _, middle⟩ <;>
        rw [currentStep] at finished
      · cases finished
      · cases finished
      · rcases leftStep : left.step middle with ⟨_ | _ | _, later⟩ <;>
          simp only [leftStep] at finished
        · cases finished
        · cases finished
        · exact ⟨currentHypothesis currentStep, leftHypothesis leftStep⟩
  | alternative left right env leftHypothesis =>
      simp only [step] at finished
      rcases leftStep : left.step state with ⟨_ | _ | _, middle⟩ <;>
        rw [leftStep] at finished <;> cases finished
  | call rule arguments env =>
      simp only [step, Rule.instantiate_eq] at finished
      cases finished
  | returning body arguments parameters env bodyHypothesis =>
      simp only [step] at finished
      rcases bodyStep : body.step state with ⟨found | _ | _, middle⟩ <;>
        rw [bodyStep] at finished
      · cases returned : Pattern.bindBack found arguments parameters env <;>
          simp only [returned] at finished <;> cases finished
      · cases finished
      · exact bodyHypothesis bodyStep

theorem finished_iff : search.step state = (.finished, after) ↔
    search.Exhausted ∧ after = state := by
  constructor
  · intro finished
    have exhausted := exhausted_of_step finished
    rw [step_of_exhausted exhausted] at finished
    cases finished
    exact ⟨exhausted, rfl⟩
  · rintro ⟨exhausted, rfl⟩
    exact step_of_exhausted exhausted _

theorem step_call (rule : Rule) (arguments : Pattern) (env : Environment) (state : State) :
    (Search.call rule arguments env).step state =
      (.silent (.returning
          (Goal.start (rule.body state.nextId) (rule.entry arguments state.nextId)
            (rule.entered arguments state).database)
          arguments (rule.parameters state.nextId) env),
        rule.entered arguments state) := by
  simp only [step, Rule.instantiate_eq]

theorem step_returning_of_none {body : Search} {answer : Environment} {arguments : Pattern}
    {parameters : List Variable} (bodyStep : body.step state = (.answer answer rest, after))
    (returned : Pattern.bindBack answer arguments parameters env = none) :
    (Search.returning body arguments parameters env).step state =
      (.silent (.returning rest arguments parameters env), after) := by
  simp only [step, bodyStep, returned]

theorem step_returning_of_some {body : Search} {answer extended : Environment}
    {arguments : Pattern} {parameters : List Variable}
    (bodyStep : body.step state = (.answer answer rest, after))
    (returned : Pattern.bindBack answer arguments parameters env = some extended) :
    (Search.returning body arguments parameters env).step state =
      (.answer extended (.returning rest arguments parameters env), after) := by
  simp only [step, bodyStep, returned]

/-! ## Calls that are entered -/

/-- The call that the next step of a search enters: its rule, its narrowed arguments and the
environment of the caller. -/
inductive Entering : Search → Rule → Pattern → Environment → Prop
  | call {rule : Rule} {arguments : Pattern} {env : Environment} :
      Entering (.call rule arguments env) rule arguments env
  | current {current left : Search} {right : Goal} {rule : Rule} {arguments : Pattern}
      {env : Environment} (inside : Entering current rule arguments env) :
      Entering (.join current left right) rule arguments env
  | left {current left : Search} {right : Goal} {rule : Rule} {arguments : Pattern}
      {env : Environment} (exhausted : current.Exhausted)
      (inside : Entering left rule arguments env) :
      Entering (.join current left right) rule arguments env
  | first {left : Search} {right : Goal} {outer : Environment} {rule : Rule}
      {arguments : Pattern} {env : Environment} (inside : Entering left rule arguments env) :
      Entering (.alternative left right outer) rule arguments env
  | body {body : Search} {outerArguments : Pattern} {parameters : List Variable}
      {outer : Environment} {rule : Rule} {arguments : Pattern} {env : Environment}
      (inside : Entering body rule arguments env) :
      Entering (.returning body outerArguments parameters outer) rule arguments env

/-- The state is left as it is, or the call at hand is entered. -/
def Effect (search : Search) (before after : State) : Prop :=
  (∃ rule arguments env, search.Entering rule arguments env ∧
    after = rule.entered arguments before) ∨ after = before

theorem Effect.of_inside {inner outer : Search} (effect : inner.Effect state after)
    (around : ∀ rule arguments env, inner.Entering rule arguments env →
      outer.Entering rule arguments env) : outer.Effect state after := by
  rcases effect with ⟨rule, arguments, env, inside, same⟩ | same
  · exact .inl ⟨rule, arguments, env, around rule arguments env inside, same⟩
  · exact .inr same

/-- A step has no other effect than to enter a call. -/
theorem effect_step (search : Search) (state : State) :
    search.Effect state (search.step state).2 := by
  induction search with
  | ended => exact .inr rfl
  | scan pattern narrowed env remaining =>
      simp only [step]
      split <;> exact .inr rfl
  | join current left right currentHypothesis leftHypothesis =>
      rcases currentStep : current.step state with ⟨_ | _ | _, after⟩ <;>
        rw [currentStep] at currentHypothesis
      · simp only [step, currentStep]
        exact currentHypothesis.of_inside fun _ _ _ => .current
      · simp only [step, currentStep]
        exact currentHypothesis.of_inside fun _ _ _ => .current
      · obtain ⟨exhausted, rfl⟩ := finished_iff.1 currentStep
        rcases leftStep : left.step after with ⟨_ | _ | _, later⟩ <;>
          rw [leftStep] at leftHypothesis <;> simp only [step, currentStep, leftStep] <;>
          exact leftHypothesis.of_inside fun _ _ _ => .left exhausted
  | alternative left right outer leftHypothesis =>
      rcases leftStep : left.step state with ⟨_ | _ | _, after⟩ <;>
        rw [leftStep] at leftHypothesis <;> simp only [step, leftStep] <;>
        exact leftHypothesis.of_inside fun _ _ _ => .first
  | call rule arguments env =>
      rw [step_call]
      exact .inl ⟨rule, arguments, env, .call, rfl⟩
  | returning body arguments parameters env bodyHypothesis =>
      have moved : ((Search.returning body arguments parameters env).step state).2 =
          (body.step state).2 := by
        rcases bodyStep : body.step state with ⟨found | _ | _, after⟩ <;>
          simp only [step, bodyStep]
        cases Pattern.bindBack found arguments parameters env <;> rfl
      rw [moved]
      exact bodyHypothesis.of_inside fun _ _ _ => .body

/-- A step creates variables, notes events and fixes arities, no more. -/
theorem precedes_step (search : Search) (state : State) :
    state.Precedes (search.step state).2 := by
  rcases search.effect_step state with ⟨rule, arguments, env, _, same⟩ | same
  · rw [same]
    exact rule.precedes_entered arguments state
  · rw [same]
    exact .refl state

theorem step_eq_of_fst {outcome : Step} (same : (search.step state).1 = outcome) :
    search.step state = (outcome, (search.step state).2) := by
  rw [← same]

theorem precedes_of_step {outcome : Step} (stepped : search.step state = (outcome, after)) :
    state.Precedes after := by
  have order := precedes_step search state
  rw [stepped] at order
  exact order

/-! ## Many steps -/

/-- A run in finitely many steps, with the answers on the way and the states in which they were
found. -/
inductive Steps : Search → State → List (Environment × State) → Search → State → Prop
  | refl (search : Search) (state : State) : Steps search state [] search state
  | silent {search next rest : Search} {state after final : State}
      {trace : List (Environment × State)}
      (stepped : search.step state = (.silent next, after))
      (steps : Steps next after trace rest final) : Steps search state trace rest final
  | answer {search next rest : Search} {state after final : State} {env : Environment}
      {trace : List (Environment × State)}
      (stepped : search.step state = (.answer env next, after))
      (steps : Steps next after trace rest final) :
      Steps search state ((env, after) :: trace) rest final

variable {trace later : List (Environment × State)}

theorem Steps.trans (early : search.Steps state trace next after)
    (late : next.Steps after later rest final) :
    search.Steps state (trace ++ later) rest final := by
  induction early with
  | refl => exact late
  | silent stepped _ inductionHypothesis => exact .silent stepped (inductionHypothesis late)
  | answer stepped _ inductionHypothesis => exact .answer stepped (inductionHypothesis late)

/-! ## Pulling -/

theorem exists_pull_found (steps : search.Steps state ((env, after) :: trace) rest final) :
    ∃ fuel next, (∀ allowed, fuel ≤ allowed →
        search.pull allowed state = (.found env, next, after)) ∧
      next.Steps after trace rest final := by
  generalize whole : (env, after) :: trace = answers at steps
  induction steps with
  | refl => cases whole
  | silent stepped _ inductionHypothesis =>
      obtain ⟨fuel, next, pulled, steps⟩ := inductionHypothesis whole
      refine ⟨fuel + 1, next, fun allowed enough => ?_, steps⟩
      obtain ⟨less, rfl⟩ := Nat.exists_eq_add_of_lt enough
      rw [pull, stepped]
      exact pulled (fuel + less) (Nat.le_add_right ..)
  | @answer _ next _ _ _ _ _ _ stepped steps _ =>
      cases whole
      refine ⟨1, next, fun allowed enough => ?_, steps⟩
      obtain ⟨less, rfl⟩ := Nat.exists_eq_add_of_le' enough
      rw [pull, stepped]

theorem exists_pull_ended (steps : search.Steps state [] rest final)
    (exhausted : rest.Exhausted) :
    ∃ fuel, ∀ allowed, fuel ≤ allowed → search.pull allowed state = (.ended, rest, final) := by
  generalize whole : [] = answers at steps
  induction steps with
  | refl search state =>
      refine ⟨1, fun allowed enough => ?_⟩
      obtain ⟨less, rfl⟩ := Nat.exists_eq_add_of_le' enough
      rw [pull, step_of_exhausted exhausted]
  | silent stepped _ inductionHypothesis =>
      obtain ⟨fuel, pulled⟩ := inductionHypothesis exhausted whole
      refine ⟨fuel + 1, fun allowed enough => ?_⟩
      obtain ⟨less, rfl⟩ := Nat.exists_eq_add_of_lt enough
      rw [pull, stepped]
      exact pulled (fuel + less) (Nat.le_add_right ..)
  | answer => cases whole

/-- What a pull has done when it returns. -/
theorem steps_of_pull {fuel : Nat} {outcome : Pull Environment}
    (pulled : search.pull fuel state = (outcome, rest, after)) :
    match outcome with
    | .found env => search.Steps state [(env, after)] rest after
    | .ended => search.Steps state [] rest after ∧ rest.Exhausted
    | .unfinished => search.Steps state [] rest after := by
  induction fuel generalizing search state with
  | zero =>
      cases pulled
      exact .refl _ _
  | succ fuel inductionHypothesis =>
      rw [pull] at pulled
      rcases stepped : search.step state with ⟨env | _ | _, middle⟩ <;> rw [stepped] at pulled
      · cases pulled
        exact .answer stepped (.refl _ _)
      · have later := inductionHypothesis pulled
        cases outcome with
        | found env => exact .silent stepped later
        | ended => exact ⟨.silent stepped later.1, later.2⟩
        | unfinished => exact .silent stepped later
      · cases pulled
        obtain ⟨exhausted, rfl⟩ := finished_iff.1 stepped
        exact ⟨.refl _ _, exhausted⟩

theorem precedes_pull (fuel : Nat) (search : Search) (state : State) :
    state.Precedes (search.pull fuel state).2.2 := by
  induction fuel generalizing search state with
  | zero => exact .refl state
  | succ fuel inductionHypothesis =>
      have first := precedes_step search state
      rw [pull]
      rcases stepped : search.step state with ⟨_ | _ | _, after⟩ <;> rw [stepped] at first
      · exact first
      · exact first.trans (inductionHypothesis _ after)
      · exact first

theorem take_zero (fuel : Nat) (search : Search) (state : State) :
    search.take fuel 0 state = (⟨[], .full⟩, search, state) :=
  rfl

theorem take_succ (fuel wanted : Nat) (search : Search) (state : State) :
    search.take fuel (wanted + 1) state =
      match search.pull fuel state with
      | (.found env, rest, after) =>
          (⟨env :: (rest.take fuel wanted after).1.answers,
            (rest.take fuel wanted after).1.completion⟩, (rest.take fuel wanted after).2)
      | (.ended, rest, after) => (⟨[], .ended⟩, rest, after)
      | (.unfinished, rest, after) => (⟨[], .unfinished⟩, rest, after) := by
  rw [take, Pull.take]
  rcases search.pull fuel state with ⟨_ | _ | _, rest, after⟩ <;> rfl

/-- What a sequence of pulls has done when it returns. -/
theorem steps_of_take {fuel wanted : Nat} {batch : Batch Environment}
    (taken : search.take fuel wanted state = (batch, rest, after)) :
    ∃ trace, search.Steps state trace rest after ∧ trace.map Prod.fst = batch.answers ∧
      (batch.completion = .ended → rest.Exhausted) := by
  induction wanted generalizing search state batch rest after with
  | zero =>
      rw [take_zero] at taken
      cases taken
      exact ⟨[], .refl _ _, rfl, fun ended => by cases ended⟩
  | succ wanted inductionHypothesis =>
      rw [take_succ] at taken
      rcases pulled : search.pull fuel state with ⟨env | _ | _, next, middle⟩ <;>
        rw [pulled] at taken <;> have run := steps_of_pull pulled
      · rcases others : next.take fuel wanted middle with ⟨later, place, reached⟩
        obtain ⟨trace, steps, answers, completion⟩ := inductionHypothesis others
        simp only [others] at taken
        cases taken
        refine ⟨(env, middle) :: trace, run.trans steps, ?_, completion⟩
        rw [List.map_cons, answers]
      · cases taken
        exact ⟨[], run.1, rfl, fun _ => run.2⟩
      · cases taken
        exact ⟨[], run, rfl, fun ended => by cases ended⟩

/-- A run to the end is gone through by pulls that are many enough and may take steps enough. -/
theorem exists_take (steps : search.Steps state trace rest final) (exhausted : rest.Exhausted) :
    ∃ fuel, ∀ allowed, fuel ≤ allowed → ∀ wanted, trace.length < wanted →
      search.take allowed wanted state = (⟨trace.map Prod.fst, .ended⟩, rest, final) := by
  induction trace generalizing search state with
  | nil =>
      obtain ⟨fuel, pulled⟩ := exists_pull_ended steps exhausted
      refine ⟨fuel, fun allowed enough wanted more => ?_⟩
      cases wanted with
      | zero => exact absurd more (Nat.not_lt_zero _)
      | succ wanted =>
          rw [take_succ, pulled allowed enough]
          rfl
  | cons head tail inductionHypothesis =>
      obtain ⟨fuel, next, pulled, others⟩ := exists_pull_found steps
      obtain ⟨tailFuel, taken⟩ := inductionHypothesis others
      refine ⟨max fuel tailFuel, fun allowed enough wanted more => ?_⟩
      cases wanted with
      | zero => exact absurd more (Nat.not_lt_zero _)
      | succ wanted =>
          rw [take_succ, pulled allowed (Nat.le_trans (Nat.le_max_left ..) enough)]
          simp only
          rw [taken allowed (Nat.le_trans (Nat.le_max_right ..) enough) wanted
            (Nat.lt_of_succ_lt_succ more)]
          rfl

end Search

end GroundLogic
