import GroundLogic.Proofs.Solutions.Substitution
import GroundLogic.Proofs.State.Chronicle
import GroundLogic.Query

/-!
# Pulling what is listed

If the solutions of a goal can be listed, its search ends with them, and pulls that may take steps
enough give as many of them as are asked for (`Lists.exists_batch`).  The same is true of the
answers to a query and of the question whether a call has a solution.
-/

namespace GroundLogic

/-- What it shows to ask for up to a number of answers, when these are all. -/
def Batch.upTo {Answer : Type} (wanted : Nat) (answers : List Answer) : Batch Answer :=
  if answers.length < wanted then ⟨answers, .ended⟩ else ⟨answers.take wanted, .full⟩

theorem Batch.upTo_cons {Answer : Type} (wanted : Nat) (answer : Answer) (answers : List Answer) :
    upTo (wanted + 1) (answer :: answers) =
      ⟨answer :: (upTo wanted answers).answers, (upTo wanted answers).completion⟩ := by
  simp only [upTo, List.length_cons, Nat.add_lt_add_iff_right, List.take_succ_cons]
  split <;> rfl

/-! ## Searches -/

namespace Search

variable {database : Database} {search rest : Search} {state final : State}
  {answers : List Environment}

theorem exists_batch {trace : List (Environment × State)}
    (steps : search.Steps state trace rest final) (exhausted : rest.Exhausted) :
    ∃ enough, ∀ allowed, enough ≤ allowed → ∀ wanted,
      (search.take allowed wanted state).1 = .upTo wanted (trace.map Prod.fst) := by
  induction trace generalizing search state with
  | nil =>
      obtain ⟨fuel, pulled⟩ := exists_pull_ended steps exhausted
      refine ⟨fuel, fun allowed enough wanted => ?_⟩
      cases wanted with
      | zero => rfl
      | succ wanted =>
          rw [take_succ, pulled allowed enough]
          rfl
  | cons head tail inductionHypothesis =>
      obtain ⟨fuel, next, pulled, others⟩ := exists_pull_found steps
      obtain ⟨tailFuel, taken⟩ := inductionHypothesis others
      refine ⟨max fuel tailFuel, fun allowed enough wanted => ?_⟩
      cases wanted with
      | zero => rfl
      | succ wanted =>
          rw [take_succ, pulled allowed (Nat.le_trans (Nat.le_max_left ..) enough), List.map_cons,
            Batch.upTo_cons, ← taken allowed (Nat.le_trans (Nat.le_max_right ..) enough) wanted]

theorem Ends.exists_batch (ends : Ends database search answers)
    (ready : Ready database search state) :
    ∃ enough, ∀ allowed, enough ≤ allowed → ∀ wanted,
      (search.take allowed wanted state).1 = .upTo wanted answers := by
  obtain ⟨trace, rest, final, steps, exhausted, sameAnswers⟩ := ends.exists_steps ready
  rw [← sameAnswers]
  exact Search.exists_batch steps exhausted

/-- The first pull finds the first answer, if there is one. -/
theorem Ends.exists_pull (ends : Ends database search answers)
    (ready : Ready database search state) :
    ∃ enough, ∀ allowed, enough ≤ allowed →
      (search.pull allowed state).1 = (answers.head?.map Pull.found).getD .ended := by
  obtain ⟨trace, rest, final, steps, exhausted, sameAnswers⟩ := ends.exists_steps ready
  cases trace with
  | nil =>
      obtain ⟨enough, pulled⟩ := exists_pull_ended steps exhausted
      refine ⟨enough, fun allowed bound => ?_⟩
      rw [pulled allowed bound, ← sameAnswers]
      rfl
  | cons head tail =>
      obtain ⟨enough, next, pulled, _⟩ := exists_pull_found steps
      refine ⟨enough, fun allowed bound => ?_⟩
      rw [pulled allowed bound, ← sameAnswers]
      rfl

end Search

/-! ## Goals -/

/-- Somewhere, everything that a call mentions is known. -/
theorem Search.exists_below_call (rule : Rule) (arguments : Pattern) (env : Environment) :
    ∃ base, (Search.call rule arguments env).Below base := by
  obtain ⟨ruleBound, ruleBelow⟩ := rule.exists_below
  obtain ⟨argumentsBound, argumentsBelow⟩ := arguments.exists_below
  obtain ⟨envBound, envBelow⟩ := env.exists_below
  refine ⟨max ruleBound (max argumentsBound envBound), ?_, ?_, ?_⟩
  · exact ruleBelow.mono fun _ small => Nat.lt_of_lt_of_le small (Nat.le_max_left ..)
  · exact argumentsBelow.mono fun _ small => Nat.lt_of_lt_of_le small
      (Nat.le_trans (Nat.le_max_left ..) (Nat.le_max_right ..))
  · exact envBelow.mono fun _ small => Nat.lt_of_lt_of_le small
      (Nat.le_trans (Nat.le_max_right ..) (Nat.le_max_right ..))

namespace Goal

variable {database : Database} {goal : Goal} {env : Environment} {state : State}
  {answers : List Environment}

/-- What is listed is what the search ends with. -/
theorem Lists.ends (lists : Lists database goal env answers) :
    Search.Ends database (start goal env database) answers := by
  have ends := lists.ends_substitute (.ofRenaming (.refl _)) (.refl _)
    (Substitution.fits_ofRenaming.2 (fun unknown value found => by
      rwa [Environment.rename_refl] at found))
  have kept : (answers.filterMap fun solution =>
      (Substitution.ofRenaming (.refl _)).carry env solution.bindings) = answers := by
    rw [List.filterMap_congr (g := some), List.filterMap_some]
    intro solution member
    rw [Substitution.carry_ofRenaming, Environment.rename_refl,
      Environment.merge_of_extends (lists.extends solution member)]
  rw [substitute_ofRenaming, Goal.rename_refl, kept] at ends
  exact ends

theorem Lists.exists_batch (lists : Lists state.database goal env answers)
    (goalBelow : Goal.Below state.nextId goal) (envBelow : env.Below state.nextId) :
    ∃ enough, ∀ allowed, enough ≤ allowed → ∀ wanted,
      ((start goal env state.database).take allowed wanted state).1 = .upTo wanted answers :=
  lists.ends.exists_batch ⟨.refl _, over_start goalBelow envBelow _⟩

end Goal

/-! ## Queries -/

theorem Answers.take_eq (fuel wanted : Nat) (answers : Answers) (state : State) :
    (answers.take fuel wanted state).1 =
      ⟨(answers.search.take fuel wanted state).1.answers.map fun solution =>
          Pattern.project solution answers.pattern answers.parameters,
        (answers.search.take fuel wanted state).1.completion⟩ := by
  induction wanted generalizing answers state with
  | zero => rfl
  | succ wanted inductionHypothesis =>
      simp only [take] at inductionHypothesis ⊢
      rw [Search.take_succ, Pull.take, pull]
      rcases answers.search.pull fuel state with ⟨found | _ | _, rest, after⟩
      · simp only [Pull.map, inductionHypothesis, List.map_cons]
      · rfl
      · rfl

section Queries

variable {rule : Rule} {pattern : Pattern} {state : State} {found : List Environment}

namespace Rule

/-- The search of a body that has been entered, in the state in which that was done. -/
theorem ready_entered (below : rule.Below state.nextId) (pattern : Pattern) :
    Search.Ready state.database
      (Goal.start (rule.body state.nextId) (rule.entry pattern state.nextId) state.database)
      (rule.entered pattern state) := by
  have built := rule.frame_le_entered pattern state
  have bodyBelow : Goal.Below (rule.entered pattern state).nextId (rule.body state.nextId) :=
    (below_body below).mono fun _ small => Nat.lt_of_lt_of_le small built
  have entryBelow : (rule.entry pattern state.nextId).Below
      (rule.entered pattern state).nextId := by
    refine over_entry (fun position bound => ?_) pattern
    exact Nat.lt_of_lt_of_le (Nat.add_lt_add_left bound _) built
  exact ⟨(rule.precedes_entered pattern state).sameFacts.symm,
    Goal.over_start bodyBelow entryBelow _⟩

theorem start_entered (rule : Rule) (pattern : Pattern) (state : State) :
    Goal.start (rule.body state.nextId) (rule.entry pattern state.nextId)
        (rule.entered pattern state).database =
      Goal.start (rule.body state.nextId) (rule.entry pattern state.nextId) state.database :=
  Goal.start_congr (rule.precedes_entered pattern state).sameFacts.symm _ _

variable (lists : Goal.Lists state.database (rule.body state.nextId)
    (rule.entry pattern state.nextId) found)
  (below : rule.Below state.nextId)

include lists below

/-- An enumeration gives what is listed for the body, projected to the pattern. -/
theorem exists_enumeration :
    ∃ enough, ∀ allowed, enough ≤ allowed → ∀ wanted,
      (((RuleQuery.mk rule pattern).enumerate state).1.take allowed wanted
          ((RuleQuery.mk rule pattern).enumerate state).2).1 =
        .upTo wanted (found.map fun solution =>
          Pattern.project solution pattern (rule.parameters state.nextId)) := by
  obtain ⟨enough, taken⟩ := lists.ends.exists_batch (ready_entered below pattern)
  refine ⟨enough, fun allowed bound wanted => ?_⟩
  simp only [RuleQuery.enumerate, instantiate_eq, Answers.take_eq, start_entered]
  rw [taken allowed bound wanted]
  simp only [Batch.upTo, List.length_map, ← List.map_take]
  split <;> rfl

/-- Whether a call has a solution is found out. -/
theorem exists_succeeds (sameLength : pattern.length = rule.arity) :
    ∃ enough, ∀ allowed, enough ≤ allowed →
      (rule.succeeds allowed pattern state).map Prod.fst = .ok (some !found.isEmpty) := by
  obtain ⟨enough, pulled⟩ := lists.ends.exists_pull (ready_entered below pattern)
  refine ⟨enough, fun allowed bound => ?_⟩
  have first : (rule.first allowed pattern state).1 =
      (found.head?.map Pull.found).getD .ended := by
    simp only [Rule.first, instantiate_eq, start_entered]
    exact pulled allowed bound
  rcases outcome : rule.first allowed pattern state with ⟨shown, after⟩
  rw [outcome] at first
  cases found <;> cases first <;>
    simp only [succeeds, checkArity, sameLength, if_true, outcome] <;> rfl

end Rule

end Queries

end GroundLogic
