import GroundLogic.Proofs.Session.Streams
import GroundLogic.Proofs.Solutions.Endings

/-!
# Evaluations that may go on for ever

`Goal.Begins` and `RuleQuery.Begins` say which answers come first, whatever comes after them: more
answers, the end, or a search that never gets anywhere.  Together with `Goal.Yields` and
`RuleQuery.Yields` they describe a stream completely.  All four are read off the runs of the search
(`Search.begin_iff_steps`, `Search.settle_iff_steps`), and the evaluation of a goal shows the same in
any two states with the same facts (`Goal.take_elsewhere`).
-/

namespace GroundLogic

/-- Pulls that may take steps enough give these answers first.  The pulls are given by the number of
steps for each and the number of answers wanted. -/
def Batch.Begin {Answer : Type} (pulls : Nat → Nat → Batch Answer) (answers : List Answer) : Prop :=
  ∃ enough, ∀ allowed, enough ≤ allowed → pulls allowed answers.length = ⟨answers, .full⟩

/-- The evaluation of a goal begins with these solutions. -/
def Goal.Begins (goal : Goal) (env : Environment) (state : State) : List Environment → Prop :=
  Batch.Begin fun allowed wanted =>
    ((goal.start env state.database).take allowed wanted state).1

/-- An enumeration that is begun in the state begins with these answers. -/
def RuleQuery.Begins (query : RuleQuery) (state : State) : List Pattern → Prop :=
  Batch.Begin fun allowed wanted =>
    ((query.enumerate state).1.take allowed wanted (query.enumerate state).2).1

/-! ## Runs -/

namespace Search

variable {search rest : Search} {state final : State} {trace : List (Environment × State)}
  {answers : List Environment}

/-- The answers of a run are found by as many pulls that may take steps enough. -/
theorem exists_beginning (steps : search.Steps state trace rest final) :
    ∃ enough, ∀ allowed, enough ≤ allowed →
      (search.take allowed trace.length state).1 = ⟨trace.map Prod.fst, .full⟩ := by
  induction trace generalizing search state with
  | nil => exact ⟨0, fun _ _ => rfl⟩
  | cons head tail inductionHypothesis =>
      obtain ⟨fuel, next, pulled, others⟩ := exists_pull_found steps
      obtain ⟨tailFuel, taken⟩ := inductionHypothesis others
      refine ⟨max fuel tailFuel, fun allowed enough => ?_⟩
      rw [List.length_cons, take_succ, pulled allowed (Nat.le_trans (Nat.le_max_left ..) enough)]
      simp only
      rw [taken allowed (Nat.le_trans (Nat.le_max_right ..) enough)]
      rfl

/-- Pulls that give all that they are asked for have gone through a run. -/
theorem exists_steps_of_full {fuel wanted : Nat}
    (taken : (search.take fuel wanted state).1 = ⟨answers, .full⟩) :
    ∃ trace rest final, search.Steps state trace rest final ∧ trace.map Prod.fst = answers := by
  rcases whole : search.take fuel wanted state with ⟨batch, rest, final⟩
  obtain ⟨trace, steps, given, _⟩ := steps_of_take whole
  rw [whole] at taken
  simp only at taken
  rw [taken] at given
  exact ⟨trace, rest, final, steps, given⟩

/-- What pulls give first is what some run gives. -/
theorem begin_iff_steps :
    Batch.Begin (fun allowed wanted => (search.take allowed wanted state).1) answers ↔
      ∃ trace rest final, search.Steps state trace rest final ∧ trace.map Prod.fst = answers := by
  constructor
  · intro begins
    obtain ⟨enough, taken⟩ := begins
    exact exists_steps_of_full (taken enough (Nat.le_refl _))
  · intro run
    obtain ⟨trace, rest, final, steps, given⟩ := run
    obtain ⟨enough, taken⟩ := exists_beginning steps
    refine ⟨enough, fun allowed bound => ?_⟩
    rw [← given, List.length_map]
    exact taken allowed bound

/-- What pulls end with is what a run to the end gives. -/
theorem settle_iff_steps :
    Batch.Settle (fun allowed wanted => (search.take allowed wanted state).1) answers ↔
      ∃ trace rest final, search.Steps state trace rest final ∧ rest.Exhausted ∧
        trace.map Prod.fst = answers := by
  constructor
  · intro settles
    obtain ⟨enough, taken⟩ := settles
    have whole := taken enough (Nat.le_refl _) (answers.length + 1)
    rw [Batch.upTo_succ_length] at whole
    exact exists_steps_of_take whole
  · intro run
    obtain ⟨trace, rest, final, steps, exhausted, given⟩ := run
    rw [← given]
    exact exists_batch steps exhausted

end Search

/-! ## Queries -/

/-- The search of a body that has been built in a state and entered with a pattern. -/
def Rule.entrance (rule : Rule) (pattern : Pattern) (state : State) : Search :=
  Goal.start (rule.body state.nextId) (rule.entry pattern state.nextId)
    (rule.entered pattern state).database

namespace RuleQuery

variable {rule : Rule} {pattern : Pattern} {state : State} {answers : List Pattern}

/-- The answers of an enumeration are made of the solutions of the body. -/
theorem take_enumerate (rule : Rule) (pattern : Pattern) (state : State) (fuel wanted : Nat) :
    (((RuleQuery.mk rule pattern).enumerate state).1.take fuel wanted
        ((RuleQuery.mk rule pattern).enumerate state).2).1 =
      ⟨((rule.entrance pattern state).take fuel wanted
          (rule.entered pattern state)).1.answers.map fun solution =>
            Pattern.project solution pattern (rule.parameters state.nextId),
        ((rule.entrance pattern state).take fuel wanted
          (rule.entered pattern state)).1.completion⟩ := by
  simp only [enumerate, Rule.instantiate_eq, Answers.take_eq, Rule.entrance]

theorem exists_take_of_enumerate {fuel wanted : Nat} {completion : Completion}
    (taken : (((RuleQuery.mk rule pattern).enumerate state).1.take fuel wanted
        ((RuleQuery.mk rule pattern).enumerate state).2).1 = ⟨answers, completion⟩) :
    ∃ found,
      ((rule.entrance pattern state).take fuel wanted (rule.entered pattern state)).1 =
        ⟨found, completion⟩ ∧
      (found.map fun solution =>
        Pattern.project solution pattern (rule.parameters state.nextId)) = answers := by
  rw [take_enumerate] at taken
  injection taken with shown completed
  refine ⟨_, ?_, shown⟩
  rw [← completed]

theorem exists_steps_of_full {fuel wanted : Nat}
    (taken : (((RuleQuery.mk rule pattern).enumerate state).1.take fuel wanted
      ((RuleQuery.mk rule pattern).enumerate state).2).1 = ⟨answers, .full⟩) :
    ∃ trace rest final,
      (rule.entrance pattern state).Steps (rule.entered pattern state) trace rest final ∧
      (trace.map fun found => Pattern.project found.1 pattern (rule.parameters state.nextId)) =
        answers := by
  obtain ⟨found, whole, shown⟩ := exists_take_of_enumerate taken
  obtain ⟨trace, rest, final, steps, given⟩ := Search.exists_steps_of_full whole
  rw [← given, List.map_map] at shown
  exact ⟨trace, rest, final, steps, shown⟩

/-- What an enumeration gives first is what some run of the body shows. -/
theorem begins_iff_steps :
    (RuleQuery.mk rule pattern).Begins state answers ↔
      ∃ trace rest final,
        (rule.entrance pattern state).Steps (rule.entered pattern state) trace rest final ∧
        (trace.map fun found => Pattern.project found.1 pattern (rule.parameters state.nextId)) =
          answers := by
  constructor
  · intro begins
    obtain ⟨enough, taken⟩ := begins
    exact exists_steps_of_full (taken enough (Nat.le_refl _))
  · intro run
    obtain ⟨trace, rest, final, steps, shown⟩ := run
    obtain ⟨enough, taken⟩ := Search.exists_beginning steps
    refine ⟨enough, fun allowed bound => ?_⟩
    simp only [take_enumerate]
    rw [← shown, List.length_map, taken allowed bound, List.map_map]
    rfl

/-- What an enumeration ends with is what a run of the body to its end shows. -/
theorem yields_iff_steps :
    (RuleQuery.mk rule pattern).Yields state answers ↔
      ∃ trace rest final,
        (rule.entrance pattern state).Steps (rule.entered pattern state) trace rest final ∧
        rest.Exhausted ∧
        (trace.map fun found => Pattern.project found.1 pattern (rule.parameters state.nextId)) =
          answers := by
  constructor
  · intro yields
    obtain ⟨enough, taken⟩ := yields
    have ended := taken enough (Nat.le_refl _) (answers.length + 1)
    rw [Batch.upTo_succ_length] at ended
    obtain ⟨found, whole, shown⟩ := exists_take_of_enumerate ended
    obtain ⟨trace, rest, final, steps, exhausted, given⟩ := Search.exists_steps_of_take whole
    rw [← given, List.map_map] at shown
    exact ⟨trace, rest, final, steps, exhausted, shown⟩
  · intro run
    obtain ⟨trace, rest, final, steps, exhausted, shown⟩ := run
    obtain ⟨enough, taken⟩ := Search.exists_batch steps exhausted
    refine ⟨enough, fun allowed bound wanted => ?_⟩
    simp only [take_enumerate]
    rw [taken allowed bound wanted, ← shown]
    simp only [Batch.upTo, List.length_map]
    split <;> simp only [List.map_map, Function.comp_def, List.map_take]

/-- An enumeration that has given all that was asked for begins so. -/
theorem begins_of_take {fuel wanted : Nat}
    (taken : (((RuleQuery.mk rule pattern).enumerate state).1.take fuel wanted
      ((RuleQuery.mk rule pattern).enumerate state).2).1 = ⟨answers, .full⟩) :
    (RuleQuery.mk rule pattern).Begins state answers :=
  begins_iff_steps.2 (exists_steps_of_full taken)

end RuleQuery

/-! ## Other states -/

theorem Pull.map_injective {Answer NewAnswer : Type} {convert : Answer → NewAnswer}
    (injective : Function.Injective convert) : Function.Injective (Pull.map convert) := by
  intro first second same
  cases first with
  | found answer =>
      cases second with
      | found other => exact congrArg Pull.found (injective (Pull.found.inj same))
      | ended => cases same
      | unfinished => cases same
  | ended => cases second <;> first | rfl | cases same
  | unfinished => cases second <;> first | rfl | cases same

/-- Streams of solutions that are alike give the same batches. -/
theorem Cursor.Alike.take_eq {kept : Variable → Prop} {first second : State}
    {search other : Search} (alike : Alike kept first second (.solving search) (.solving other))
    (same : first.database.SameFacts second.database) (fuel wanted : Nat) :
    (other.take fuel wanted second).1 = (search.take fuel wanted first).1 := by
  induction wanted generalizing search other first second with
  | zero => rfl
  | succ wanted inductionHypothesis =>
      obtain ⟨sameItem, rests⟩ := alike_pull fuel same alike
      have sameOutcome : (other.pull fuel second).1 = (search.pull fuel first).1 :=
        Pull.map_injective (fun _ _ sameSolution => Item.solution.inj sameSolution) sameItem
      have sameAfter := (search.precedes_pull fuel first).sameFacts.symm.trans
        (same.trans (other.precedes_pull fuel second).sameFacts)
      have others :
          ((other.pull fuel second).2.1.take fuel wanted (other.pull fuel second).2.2).1 =
            ((search.pull fuel first).2.1.take fuel wanted (search.pull fuel first).2.2).1 :=
        inductionHypothesis rests sameAfter
      rw [Search.take_succ, Search.take_succ]
      rcases pulled : search.pull fuel first with ⟨outcome, rest, after⟩
      rcases otherPulled : other.pull fuel second with ⟨otherOutcome, otherRest, otherAfter⟩
      rw [pulled, otherPulled] at sameOutcome others
      simp only at sameOutcome others
      subst sameOutcome
      cases otherOutcome with
      | found env => simp only [others]
      | ended => rfl
      | unfinished => rfl

/-- A goal that is evaluated in two states with the same facts shows the same in both. -/
theorem Goal.take_elsewhere {goal : Goal} {env : Environment} {first second : State}
    (same : first.database.SameFacts second.database)
    (firstBelow : Goal.Below first.nextId goal) (firstKnown : env.Below first.nextId)
    (secondBelow : Goal.Below second.nextId goal) (secondKnown : env.Below second.nextId)
    (fuel wanted : Nat) :
    ((start goal env second.database).take fuel wanted second).1 =
      ((start goal env first.database).take fuel wanted first).1 := by
  have alike := @Cursor.alike_opening first second _ _ (.evaluate goal env) first second same
    ⟨firstBelow, firstKnown⟩ ⟨secondBelow, secondKnown⟩ rfl rfl
  exact alike.take_eq same fuel wanted

end GroundLogic
