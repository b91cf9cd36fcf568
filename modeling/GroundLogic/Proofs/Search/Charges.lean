import GroundLogic.Proofs.Search.Steps
import GroundLogic.Proofs.State.Charges

/-!
# What searches are charged for

A step of a search is charged when it pulls a call for the first time, and then for entering that
call (`Search.charges`).  What a stream is charged depends on the states in which its steps are
taken, and these may be any states: other streams may be pulled in between.  A call that is never
pulled is not charged.  From its first step on it is charged for one build of its rule, then for
what the search of the body is charged, and for its own rule never again
(`Search.chargesOver_call`).
-/

namespace GroundLogic

/-- The search of the body that is built when a call is entered. -/
def Rule.bodySearch (rule : Rule) (arguments : Pattern) (state : State) : Search :=
  Goal.start (rule.body state.nextId) (rule.entry arguments state.nextId)
    (rule.entered arguments state).database

namespace Search

/-- What the next step of a search is charged. -/
def charges : Search → State → List Charge
  | .ended, _ => []
  | .scan _ _ _ _, _ => []
  | .join current left _, state =>
      match current.step state with
      | (.finished, after) => left.charges after
      | _ => current.charges state
  | .alternative left _ _, state => left.charges state
  | .call rule _ _, state => .entry rule :: rule.definitions state
  | .returning body _ _ _, state => body.charges state

/-- What is left of a search after its next step. -/
def next (search : Search) (state : State) : Search :=
  match (search.step state).1 with
  | .answer _ rest => rest
  | .silent rest => rest
  | .finished => search

/-- What steps in these states are charged, one after the other. -/
def chargesOver : Search → List State → List Charge
  | _, [] => []
  | search, state :: states => search.charges state ++ (search.next state).chargesOver states

/-- The states in which a pull takes its steps. -/
def statesOfPull : Nat → Search → State → List State
  | 0, _, _ => []
  | fuel + 1, search, state =>
      match search.step state with
      | (.silent rest, after) => state :: statesOfPull fuel rest after
      | _ => [state]

/-- What pulls are charged, each with the number of steps that it may take and the state in which it
is made. -/
def chargesOfPulls : Search → List (Nat × State) → List Charge
  | _, [] => []
  | search, (fuel, state) :: pulls =>
      search.chargesOver (search.statesOfPull fuel state) ++
        (search.pull fuel state).2.1.chargesOfPulls pulls

variable {search : Search} {state : State}

/-! ## Steps -/

theorem Entering.not_exhausted {rule : Rule} {arguments : Pattern} {env : Environment}
    (entering : search.Entering rule arguments env) : ¬ search.Exhausted := by
  induction entering with
  | call => exact id
  | current _ inductionHypothesis => exact fun exhausted => inductionHypothesis exhausted.1
  | left _ _ inductionHypothesis => exact fun exhausted => inductionHypothesis exhausted.2
  | first => exact id
  | body _ inductionHypothesis => exact inductionHypothesis

/-- A step is charged for the call that it enters, if it enters one, and for nothing else. -/
theorem charges_cases (search : Search) (state : State) :
    (∃ rule arguments env, search.Entering rule arguments env ∧
      search.charges state = .entry rule :: rule.definitions state) ∨
    ((∀ rule arguments env, ¬ search.Entering rule arguments env) ∧
      search.charges state = []) := by
  induction search generalizing state with
  | ended => exact .inr ⟨nofun, rfl⟩
  | scan pattern narrowed env remaining => exact .inr ⟨nofun, rfl⟩
  | join current left right currentHypothesis leftHypothesis =>
      by_cases exhausted : current.Exhausted
      · have step := step_of_exhausted exhausted state
        rcases leftHypothesis state with ⟨rule, arguments, env, inside, charged⟩ | ⟨none, charged⟩ <;>
          simp only [charges, step]
        · exact .inl ⟨rule, arguments, env, .left exhausted inside, charged⟩
        · refine .inr ⟨fun rule arguments env entering => ?_, charged⟩
          cases entering with
          | current inside => exact inside.not_exhausted exhausted
          | left _ inside => exact none rule arguments env inside
      · have goesOn : (Search.join current left right).charges state = current.charges state := by
          rcases currentStep : current.step state with ⟨_ | _ | _, after⟩ <;>
            simp only [charges, currentStep]
          exact absurd (finished_iff.1 currentStep).1 exhausted
        rw [goesOn]
        rcases currentHypothesis state with ⟨rule, arguments, env, inside, charged⟩ | ⟨none, charged⟩
        · exact .inl ⟨rule, arguments, env, .current inside, charged⟩
        · refine .inr ⟨fun rule arguments env entering => ?_, charged⟩
          cases entering with
          | current inside => exact none rule arguments env inside
          | left spent _ => exact exhausted spent
  | alternative left right outer leftHypothesis =>
      rcases leftHypothesis state with ⟨rule, arguments, env, inside, charged⟩ | ⟨none, charged⟩
      · exact .inl ⟨rule, arguments, env, .first inside, charged⟩
      · refine .inr ⟨fun rule arguments env entering => ?_, charged⟩
        cases entering with
        | first inside => exact none rule arguments env inside
  | call rule arguments env => exact .inl ⟨rule, arguments, env, .call, rfl⟩
  | returning body outerArguments parameters outer bodyHypothesis =>
      rcases bodyHypothesis state with ⟨rule, arguments, env, inside, charged⟩ | ⟨none, charged⟩
      · exact .inl ⟨rule, arguments, env, .body inside, charged⟩
      · refine .inr ⟨fun rule arguments env entering => ?_, charged⟩
        cases entering with
        | body inside => exact none rule arguments env inside

theorem incurs_step (search : Search) (state : State) :
    state.Incurs (search.charges state) (search.step state).2 := by
  induction search generalizing state with
  | ended => exact .refl state
  | scan pattern narrowed env remaining =>
      simp only [step, charges]
      split <;> exact .refl state
  | join current left right currentHypothesis leftHypothesis =>
      have currentIncurs := currentHypothesis state
      rcases currentStep : current.step state with ⟨_ | _ | _, after⟩ <;>
        rw [currentStep] at currentIncurs <;> simp only [step, charges, currentStep]
      · exact currentIncurs
      · exact currentIncurs
      · obtain ⟨_, rfl⟩ := finished_iff.1 currentStep
        have leftIncurs := leftHypothesis after
        rcases leftStep : left.step after with ⟨_ | _ | _, later⟩ <;>
          rw [leftStep] at leftIncurs <;> exact leftIncurs
  | alternative left right env leftHypothesis =>
      have leftIncurs := leftHypothesis state
      rcases leftStep : left.step state with ⟨_ | _ | _, after⟩ <;>
        rw [leftStep] at leftIncurs <;> simp only [step, charges, leftStep] <;> exact leftIncurs
  | call rule arguments env =>
      rw [step_call]
      exact Rule.incurs_entered rfl arguments state
  | returning body arguments parameters env bodyHypothesis =>
      have bodyIncurs := bodyHypothesis state
      rcases bodyStep : body.step state with ⟨found | _ | _, after⟩ <;>
        rw [bodyStep] at bodyIncurs <;> simp only [step, charges, bodyStep]
      · cases Pattern.bindBack found arguments parameters env <;> exact bodyIncurs
      · exact bodyIncurs
      · exact bodyIncurs

theorem incurs_pull (fuel : Nat) (search : Search) (state : State) :
    state.Incurs (search.chargesOver (search.statesOfPull fuel state))
      (search.pull fuel state).2.2 := by
  induction fuel generalizing search state with
  | zero => exact .refl state
  | succ fuel inductionHypothesis =>
      have first := search.incurs_step state
      rw [pull, statesOfPull]
      rcases stepped : search.step state with ⟨_ | rest | _, after⟩ <;> rw [stepped] at first <;>
        simp only [chargesOver, List.append_nil]
      · exact first
      · simp only [next, stepped]
        exact first.trans (inductionHypothesis rest after)
      · exact first

/-! ## One stream -/

/-- What is left of a search after steps in these states. -/
def nextOver (search : Search) (states : List State) : Search :=
  states.foldl next search

theorem chargesOver_append (search : Search) (early late : List State) :
    search.chargesOver (early ++ late) =
      search.chargesOver early ++ (search.nextOver early).chargesOver late := by
  induction early generalizing search with
  | nil => rfl
  | cons state states inductionHypothesis =>
      simp only [List.cons_append, chargesOver, inductionHypothesis, List.append_assoc, nextOver,
        List.foldl_cons]

theorem nextOver_statesOfPull (fuel : Nat) (search : Search) (state : State) :
    search.nextOver (search.statesOfPull fuel state) = (search.pull fuel state).2.1 := by
  induction fuel generalizing search state with
  | zero => rfl
  | succ fuel inductionHypothesis =>
      rw [pull, statesOfPull]
      rcases stepped : search.step state with ⟨_ | rest | _, after⟩ <;>
        simp only [nextOver, List.foldl_cons, List.foldl_nil, next, stepped]
      exact inductionHypothesis rest after

/-- A stream goes on where the last pull stopped, so only the steps matter, not how they are spread
over the pulls. -/
theorem chargesOfPulls_eq (search : Search) (pulls : List (Nat × State)) :
    ∃ states, search.chargesOfPulls pulls = search.chargesOver states ∧
      (states = [] ↔ ∀ pull ∈ pulls, pull.1 = 0) := by
  induction pulls generalizing search with
  | nil => exact ⟨[], rfl, by simp⟩
  | cons pull pulls inductionHypothesis =>
      obtain ⟨fuel, state⟩ := pull
      obtain ⟨later, charged, unpulled⟩ := inductionHypothesis (search.pull fuel state).2.1
      refine ⟨search.statesOfPull fuel state ++ later, ?_, ?_⟩
      · rw [chargesOfPulls, charged, chargesOver_append, nextOver_statesOfPull]
      · rw [List.append_eq_nil_iff, unpulled, List.forall_mem_cons]
        refine and_congr_left fun _ => ?_
        cases fuel with
        | zero => exact ⟨fun _ => rfl, fun _ => rfl⟩
        | succ fuel =>
            have nonempty : search.statesOfPull (fuel + 1) state ≠ [] := by
              rw [statesOfPull]
              rcases search.step state with ⟨_ | _ | _, after⟩ <;> exact List.cons_ne_nil _ _
            exact ⟨fun none => absurd none nonempty, fun none => absurd none (Nat.succ_ne_zero _)⟩

/-- A call in progress stays one. -/
theorem next_returning (body : Search) (arguments : Pattern) (parameters : List Variable)
    (env : Environment) (state : State) :
    (Search.returning body arguments parameters env).next state =
      .returning (body.next state) arguments parameters env := by
  rcases bodyStep : body.step state with ⟨found | rest | _, after⟩
  · cases returned : Pattern.bindBack found arguments parameters env with
    | none => simp only [next, step_returning_of_none bodyStep returned, bodyStep]
    | some extended => simp only [next, step_returning_of_some bodyStep returned, bodyStep]
  · simp only [next, step, bodyStep]
  · simp only [next, step, bodyStep]

theorem chargesOver_returning (body : Search) (arguments : Pattern) (parameters : List Variable)
    (env : Environment) (states : List State) :
    (Search.returning body arguments parameters env).chargesOver states =
      body.chargesOver states := by
  induction states generalizing body with
  | nil => rfl
  | cons state states inductionHypothesis =>
      rw [chargesOver, chargesOver, next_returning, inductionHypothesis, charges]

/-- A call is charged for one build of its rule at its first step, and from then on what its body is
charged. -/
theorem chargesOver_call (rule : Rule) (arguments : Pattern) (env : Environment) (state : State)
    (states : List State) :
    (Search.call rule arguments env).chargesOver (state :: states) =
      .entry rule :: (rule.definitions state ++
        (rule.bodySearch arguments state).chargesOver states) := by
  have entered : (Search.call rule arguments env).next state =
      .returning (rule.bodySearch arguments state) arguments (rule.parameters state.nextId) env := by
    simp only [next, step_call, Rule.bodySearch]
  rw [chargesOver, entered, chargesOver_returning, charges, List.cons_append]

/-- However often a call is pulled, in whatever states: if it has taken a step at all, it has been
charged for one build of its rule, and apart from that only what the search of that one body was
charged. -/
theorem chargesOfPulls_call (rule : Rule) (arguments : Pattern) (env : Environment)
    (pulls : List (Nat × State)) :
    ((∀ pull ∈ pulls, pull.1 = 0) →
      (Search.call rule arguments env).chargesOfPulls pulls = []) ∧
    ((∃ pull ∈ pulls, pull.1 ≠ 0) →
      ∃ first states, (Search.call rule arguments env).chargesOfPulls pulls =
        .entry rule :: (rule.definitions first ++
          (rule.bodySearch arguments first).chargesOver states)) := by
  obtain ⟨states, charged, unpulled⟩ := chargesOfPulls_eq (.call rule arguments env) pulls
  rw [charged]
  constructor
  · intro none
    rw [unpulled.2 none, chargesOver]
  · intro some
    cases states with
    | nil =>
        obtain ⟨pull, member, pulled⟩ := some
        exact absurd (unpulled.1 rfl pull member) pulled
    | cons first states => exact ⟨first, states, chargesOver_call ..⟩

end Search

end GroundLogic
