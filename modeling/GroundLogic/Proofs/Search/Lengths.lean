import GroundLogic.Proofs.Goal.Lengths
import GroundLogic.Proofs.Search.Entering

/-!
# Lengths in a search

What a search has come to stems from the goal that it was begun with: every scan from a fact in the
goal or in a body of a rule that is reached, and every call from a call there (`Within`).  Steps
keep this, whatever happens in between.  Where the goal suits the database and the rules that it
reaches are settled, all lengths therefore fit (`Within.fits`), and pulling changes no table
(`sameTables_pull`).
-/

namespace GroundLogic

namespace Goal

variable {goal part : Goal} {database : Database}

/-- The goals that the evaluation of a goal may come to: its parts, and the bodies of the rules that
are called in these. -/
inductive Meets (goal : Goal) : Goal → Prop
  | whole : Meets goal goal
  | conjLeft {left right : Goal} (both : Meets goal (.conj left right)) : Meets goal left
  | conjRight {left right : Goal} (both : Meets goal (.conj left right)) : Meets goal right
  | disjLeft {left right : Goal} (both : Meets goal (.disj left right)) : Meets goal left
  | disjRight {left right : Goal} (both : Meets goal (.disj left right)) : Meets goal right
  | body {rule : Rule} {arguments : Pattern} {base : Nat}
      (called : Meets goal (.call rule arguments)) (fresh : rule.Below base) :
      Meets goal (rule.body base)

theorem Meets.reaches (meets : goal.Meets part) :
    ∀ called ∈ Formula.callees part, goal.Reaches called := by
  induction meets with
  | whole => exact fun _ => .callee
  | conjLeft _ bothHypothesis =>
      exact fun called member => bothHypothesis called (List.mem_append_left _ member)
  | conjRight _ bothHypothesis =>
      exact fun called member => bothHypothesis called (List.mem_append_right _ member)
  | disjLeft _ bothHypothesis =>
      exact fun called member => bothHypothesis called (List.mem_append_left _ member)
  | disjRight _ bothHypothesis =>
      exact fun called member => bothHypothesis called (List.mem_append_right _ member)
  | @body rule _ _ _ fresh calledHypothesis =>
      exact fun called member =>
        .body (calledHypothesis rule (List.mem_cons_self ..)) fresh member

theorem Meets.reaches_call {rule : Rule} {arguments : Pattern}
    (meets : goal.Meets (.call rule arguments)) : goal.Reaches rule :=
  meets.reaches rule (List.mem_cons_self ..)

/-- All that is met suits, if the goal and the rules that it reaches do. -/
theorem Meets.suits (meets : goal.Meets part) (suits : goal.Suits database)
    (settled : ∀ rule, goal.Reaches rule → rule.Settled database) : part.Suits database := by
  induction meets with
  | whole => exact suits
  | conjLeft _ bothHypothesis => exact bothHypothesis.1
  | conjRight _ bothHypothesis => exact bothHypothesis.2
  | disjLeft _ bothHypothesis => exact bothHypothesis.1
  | disjRight _ bothHypothesis => exact bothHypothesis.2
  | @body rule _ base called _ _ => exact (settled rule called.reaches_call).bodies base

end Goal

/-- A pull goes on after the tuple that it has found. -/
theorem Pattern.subset_of_nextMatch {pattern narrowed : Pattern} {env extended : Environment}
    {tuples rest : List Tuple}
    (found : nextMatch pattern narrowed env tuples = some (extended, rest)) : rest ⊆ tuples := by
  obtain ⟨passed, split, _⟩ := exists_of_nextMatch found
  rw [split]
  exact List.subset_append_right _ _

namespace Search

variable {goal part : Goal} {database larger : Database} {search : Search} {rule : Rule}
  {arguments : Pattern} {env : Environment} {state after : State}

/-! ## Where scans and calls come from -/

/-- Every scan is one of a fact that the goal meets, over stored tuples, and every call one that the
goal meets, with its arguments narrowed. -/
def Within (goal : Goal) (database : Database) : Search → Prop
  | .ended => True
  | .scan pattern narrowed _ remaining =>
      ∃ relation, goal.Meets (.fact relation pattern) ∧ narrowed.length = pattern.length ∧
        remaining ⊆ (database.table relation).tuples
  | .join current left right =>
      Within goal database current ∧ Within goal database left ∧ goal.Meets right
  | .alternative left right _ => Within goal database left ∧ goal.Meets right
  | .call rule arguments _ =>
      ∃ written, goal.Meets (.call rule written) ∧ arguments.length = written.length
  | .returning body arguments parameters _ =>
      Within goal database body ∧ ∃ rule written, goal.Meets (.call rule written) ∧
        arguments.length = written.length ∧ parameters.length = rule.arity

theorem Within.mono (within : search.Within goal database)
    (more : ∀ relation, (database.table relation).tuples ⊆ (larger.table relation).tuples) :
    search.Within goal larger := by
  induction search with
  | ended => trivial
  | scan pattern narrowed env remaining =>
      obtain ⟨relation, meets, sameLength, stored⟩ := within
      exact ⟨relation, meets, sameLength, List.Subset.trans stored (more relation)⟩
  | join current left right currentHypothesis leftHypothesis =>
      exact ⟨currentHypothesis within.1, leftHypothesis within.2.1, within.2.2⟩
  | alternative left right env leftHypothesis => exact ⟨leftHypothesis within.1, within.2⟩
  | call rule arguments env => exact within
  | returning body arguments parameters env bodyHypothesis =>
      exact ⟨bodyHypothesis within.1, within.2⟩

theorem within_start (meets : goal.Meets part) (env : Environment) (database : Database) :
    (part.start env database).Within goal database := by
  induction part with
  | fact relation pattern =>
      exact ⟨relation, meets, Pattern.length_narrow env pattern, List.Subset.refl _⟩
  | conj left right leftHypothesis rightHypothesis =>
      exact ⟨trivial, leftHypothesis meets.conjLeft, meets.conjRight⟩
  | disj left right leftHypothesis rightHypothesis =>
      exact ⟨leftHypothesis meets.disjLeft, meets.disjRight⟩
  | call rule arguments => exact ⟨arguments, meets, Pattern.length_narrow env arguments⟩

/-- The body of a call that has been entered is met. -/
theorem within_entered {written : Pattern} (meets : goal.Meets (.call rule written))
    (sameLength : arguments.length = written.length) {base : Nat} (fresh : rule.Below base)
    (start env : Environment) (database : Database) :
    (Search.returning ((rule.body base).start start database) arguments (rule.parameters base)
      env).Within goal database :=
  ⟨within_start (.body meets fresh) start database,
    rule, written, meets, sameLength, rule.length_parameters base⟩

/-- What a step leaves is within the same goal. -/
def StaysWithin (goal : Goal) (database : Database) : Step → Prop
  | .answer _ rest => rest.Within goal database
  | .silent rest => rest.Within goal database
  | .finished => True

theorem within_step (within : search.Within goal database)
    (same : state.database.SameFacts database) (below : search.Below state.nextId) :
    StaysWithin goal database (search.step state).1 := by
  induction search generalizing state with
  | ended => trivial
  | scan pattern narrowed env remaining =>
      obtain ⟨relation, meets, sameLength, stored⟩ := within
      simp only [step]
      cases found : Pattern.nextMatch pattern narrowed env remaining with
      | none => trivial
      | some next =>
          exact ⟨relation, meets, sameLength,
            List.Subset.trans (Pattern.subset_of_nextMatch found) stored⟩
  | join current left right currentHypothesis leftHypothesis =>
      obtain ⟨currentWithin, leftWithin, meets⟩ := within
      have currentStays := currentHypothesis currentWithin same below.1
      rcases currentStep : current.step state with ⟨_ | _ | _, middle⟩ <;>
        rw [currentStep] at currentStays
      · simp only [step, currentStep]
        exact ⟨currentStays, leftWithin, meets⟩
      · simp only [step, currentStep]
        exact ⟨currentStays, leftWithin, meets⟩
      · obtain ⟨_, rfl⟩ := finished_iff.1 currentStep
        have leftStays := leftHypothesis leftWithin same below.2.1
        have order := precedes_step left middle
        rcases leftStep : left.step middle with ⟨found | _ | _, later⟩ <;>
          rw [leftStep] at leftStays order <;> simp only [step, currentStep, leftStep]
        · rw [Goal.start_congr (order.sameFacts.symm.trans same)]
          exact ⟨within_start meets found database, leftStays, meets⟩
        · exact ⟨trivial, leftStays, meets⟩
        · trivial
  | alternative left right env leftHypothesis =>
      obtain ⟨leftWithin, meets⟩ := within
      have leftStays := leftHypothesis leftWithin same below.1
      have order := precedes_step left state
      rcases leftStep : left.step state with ⟨_ | _ | _, middle⟩ <;>
        rw [leftStep] at leftStays order <;> simp only [step, leftStep]
      · exact ⟨leftStays, meets⟩
      · exact ⟨leftStays, meets⟩
      · rw [Goal.start_congr (order.sameFacts.symm.trans same)]
        exact within_start meets env database
  | call rule arguments env =>
      obtain ⟨written, meets, sameLength⟩ := within
      rw [step_call, Goal.start_congr ((rule.precedes_entered arguments state).sameFacts.symm.trans
        same)]
      exact within_entered meets sameLength below.1 _ env database
  | returning body arguments parameters env bodyHypothesis =>
      obtain ⟨bodyWithin, origin⟩ := within
      have bodyStays := bodyHypothesis bodyWithin same below.1
      rcases bodyStep : body.step state with ⟨found | _ | _, middle⟩ <;>
        rw [bodyStep] at bodyStays
      · cases returned : Pattern.bindBack found arguments parameters env with
        | none =>
            rw [step_returning_of_none bodyStep returned]
            exact ⟨bodyStays, origin⟩
        | some extended =>
            rw [step_returning_of_some bodyStep returned]
            exact ⟨bodyStays, origin⟩
      · simp only [step, bodyStep]
        exact ⟨bodyStays, origin⟩
      · simp only [step, bodyStep]
        trivial

theorem within_pull (fuel : Nat) (within : search.Within goal database)
    (same : state.database.SameFacts database) (below : search.Below state.nextId) :
    (search.pull fuel state).2.1.Within goal database := by
  induction fuel generalizing search state with
  | zero => exact within
  | succ fuel inductionHypothesis =>
      have stays := within_step within same below
      have order := precedes_step search state
      rw [pull]
      rcases stepped : search.step state with ⟨_ | _ | _, after⟩ <;> rw [stepped] at stays order
      · exact stays
      · exact inductionHypothesis stays (order.sameFacts.symm.trans same)
          (below_of_silent below stepped)
      · exact within

theorem Entering.reaches (entering : search.Entering rule arguments env)
    (within : search.Within goal database) : goal.Reaches rule := by
  induction entering with
  | call =>
      obtain ⟨_, meets, _⟩ := within
      exact meets.reaches_call
  | current _ inductionHypothesis => exact inductionHypothesis within.1
  | left _ _ inductionHypothesis => exact inductionHypothesis within.2.1
  | first _ inductionHypothesis => exact inductionHypothesis within.1
  | body _ inductionHypothesis => exact inductionHypothesis within.1

/-! ## Tables -/

theorem sameTables_step (within : search.Within goal database)
    (settled : ∀ rule, goal.Reaches rule → rule.Settled state.database) :
    state.SameTables (search.step state).2 := by
  rcases search.effect_step state with ⟨rule, arguments, env, entering, same⟩ | same
  · rw [same]
    exact (settled rule (entering.reaches within)).sameTables_entered arguments
  · rw [same]
    exact .refl state

/-- If the rules that may be called are settled, a pull changes no table. -/
theorem sameTables_pull (fuel : Nat) (within : search.Within goal database)
    (same : state.database.SameFacts database) (below : search.Below state.nextId)
    (settled : ∀ rule, goal.Reaches rule → rule.Settled state.database) :
    state.SameTables (search.pull fuel state).2.2 := by
  induction fuel generalizing search state with
  | zero => exact .refl state
  | succ fuel inductionHypothesis =>
      have stays := within_step within same below
      have order := precedes_step search state
      have first := sameTables_step within settled
      rw [pull]
      rcases stepped : search.step state with ⟨_ | _ | _, after⟩ <;>
        rw [stepped] at stays order first
      · exact first
      · exact first.trans (inductionHypothesis stays (order.sameFacts.symm.trans same)
          (below_of_silent below stepped)
          fun rule reaches => (settled rule reaches).mono first.aritiesWithin)
      · exact first

/-! ## Lengths -/

/-- Every scan is one of a fact that the goal meets, and its pattern, narrowed or not, has the arity
that is fixed for the relation and the length of all its tuples; every call is one that the goal
meets and has as many arguments as its rule has parameters, also while its body is searched. -/
def Fits (goal : Goal) (database : Database) : Search → Prop
  | .ended => True
  | .scan pattern narrowed _ remaining =>
      ∃ relation, goal.Meets (.fact relation pattern) ∧
        (database.table relation).arity = some pattern.length ∧
        narrowed.length = pattern.length ∧ remaining ⊆ (database.table relation).tuples ∧
        ∀ tuple ∈ (database.table relation).tuples, tuple.length = pattern.length
  | .join current left _ => Fits goal database current ∧ Fits goal database left
  | .alternative left _ _ => Fits goal database left
  | .call rule arguments _ =>
      (∃ written, goal.Meets (.call rule written)) ∧ arguments.length = rule.arity
  | .returning body arguments parameters _ =>
      Fits goal database body ∧ arguments.length = parameters.length

theorem Within.fits (within : search.Within goal database) (suits : goal.Suits database)
    (settled : ∀ rule, goal.Reaches rule → rule.Settled database)
    (sized : ∀ relation, ∀ tuple ∈ (database.table relation).tuples,
      (database.table relation).arity = some tuple.length) : search.Fits goal database := by
  induction search with
  | ended => trivial
  | scan pattern narrowed env remaining =>
      obtain ⟨relation, meets, sameLength, stored⟩ := within
      have fixed : (database.table relation).arity = some pattern.length :=
        meets.suits suits settled
      refine ⟨relation, meets, fixed, sameLength, stored, fun tuple member => ?_⟩
      have sizes := sized relation tuple member
      rw [fixed] at sizes
      exact (Option.some.inj sizes).symm
  | join current left right currentHypothesis leftHypothesis =>
      exact ⟨currentHypothesis within.1, leftHypothesis within.2.1⟩
  | alternative left right env leftHypothesis => exact leftHypothesis within.1
  | call rule arguments env =>
      obtain ⟨written, meets, sameLength⟩ := within
      have fits : written.length = rule.arity := meets.suits suits settled
      exact ⟨⟨written, meets⟩, sameLength.trans fits⟩
  | returning body arguments parameters env bodyHypothesis =>
      obtain ⟨bodyWithin, rule, written, meets, sameLength, parametersLength⟩ := within
      have fits : written.length = rule.arity := meets.suits suits settled
      exact ⟨bodyHypothesis bodyWithin, sameLength.trans (fits.trans parametersLength.symm)⟩

end Search

end GroundLogic
