import GroundLogic.Proofs.Renaming.Answers
import GroundLogic.Proofs.Solutions.Batches
import GroundLogic.Proofs.Solutions.Narrowing

/-!
# Evaluations that end

`Goal.Yields` says that the evaluation of a goal ends after certain solutions, `RuleQuery.Yields`
the same of an enumeration of answers, and `Rule.Decides` that it is found out whether a call has a
solution.  All three can be read off the lists of solutions (`Goal.yields_iff_lists`,
`RuleQuery.yields_iff_lists`, `Rule.exists_succeeds`), and these depend on the stored facts only.
Two evaluations are compared by comparing what is listed for them.
-/

namespace GroundLogic

/-- Pulls that may take steps enough give as many of these answers as are asked for, and then the
end.  The pulls are given by the number of steps for each and the number of answers wanted. -/
def Batch.Settle {Answer : Type} (pulls : Nat → Nat → Batch Answer) (answers : List Answer) :
    Prop :=
  ∃ enough, ∀ allowed, enough ≤ allowed → ∀ wanted, pulls allowed wanted = .upTo wanted answers

/-- The evaluation of a goal ends after these solutions. -/
def Goal.Yields (goal : Goal) (env : Environment) (state : State) : List Environment → Prop :=
  Batch.Settle fun allowed wanted =>
    ((goal.start env state.database).take allowed wanted state).1

/-- An enumeration that is begun in the state ends after these answers. -/
def RuleQuery.Yields (query : RuleQuery) (state : State) : List Pattern → Prop :=
  Batch.Settle fun allowed wanted =>
    ((query.enumerate state).1.take allowed wanted (query.enumerate state).2).1

/-- The question whether a call has a solution is answered. -/
def Rule.Decides (rule : Rule) (pattern : Pattern) (state : State) (truth : Bool) : Prop :=
  ∃ enough, ∀ allowed, enough ≤ allowed →
    (rule.succeeds allowed pattern state).map Prod.fst = .ok (some truth)

/-- To ask for one more than there are brings the end to light. -/
theorem Batch.upTo_succ_length {Answer : Type} (answers : List Answer) :
    upTo (answers.length + 1) answers = ⟨answers, .ended⟩ := by
  rw [upTo, if_pos (Nat.lt_succ_self _)]

/-- There is one list of answers at most after which pulls end. -/
theorem Batch.Settle.unique {Answer : Type} {pulls : Nat → Nat → Batch Answer}
    {first second : List Answer} (firstSettle : Settle pulls first)
    (secondSettle : Settle pulls second) : first = second := by
  obtain ⟨firstEnough, firstTaken⟩ := firstSettle
  obtain ⟨secondEnough, secondTaken⟩ := secondSettle
  have early := firstTaken _ (Nat.le_max_left firstEnough secondEnough) (first.length + 1)
  have late := secondTaken _ (Nat.le_max_right firstEnough secondEnough) (first.length + 1)
  rw [late, upTo_succ_length, upTo] at early
  split at early
  · injection early with same
    exact same.symm
  · cases congrArg Batch.completion early

/-- Pulls that have come to the end have gone through the whole run. -/
theorem Search.exists_steps_of_take {search : Search} {state : State}
    {answers : List Environment} {fuel wanted : Nat}
    (taken : (search.take fuel wanted state).1 = ⟨answers, .ended⟩) :
    ∃ trace rest final, search.Steps state trace rest final ∧ rest.Exhausted ∧
      trace.map Prod.fst = answers := by
  rcases whole : search.take fuel wanted state with ⟨batch, rest, final⟩
  rw [whole] at taken
  simp only at taken
  subst taken
  obtain ⟨trace, steps, given, completion⟩ := steps_of_take whole
  exact ⟨trace, rest, final, steps, completion rfl, given⟩

/-! ## Goals -/

namespace Goal

variable {database : Database} {goal : Goal} {env larger : Environment} {state : State}
  {solutions answers : List Environment}

/-- What a search has given when it has come to its end is what is listed. -/
theorem lists_of_take {fuel wanted : Nat} (same : state.database.SameFacts database)
    (below : (start goal env database).Below state.nextId)
    (taken : ((start goal env database).take fuel wanted state).1 = ⟨answers, .ended⟩) :
    Lists database goal env answers := by
  obtain ⟨trace, rest, final, steps, exhausted, given⟩ := Search.exists_steps_of_take taken
  obtain ⟨underway, sameAfter, belowAfter⟩ :=
    underway_of_steps steps (underway_start database goal env) same below
  have advanced := underway.step sameAfter belowAfter
  rw [Search.step_of_exhausted exhausted, List.nil_append, given] at advanced
  exact advanced

/-- An evaluation has come to its end when pulls have given the solutions and then the end. -/
theorem yields_of_take {fuel wanted : Nat}
    (taken : ((goal.start env state.database).take fuel wanted state).1 = ⟨solutions, .ended⟩) :
    goal.Yields env state solutions := by
  obtain ⟨trace, rest, final, steps, exhausted, given⟩ := Search.exists_steps_of_take taken
  have batches := Search.exists_batch steps exhausted
  rw [given] at batches
  exact batches

/-- The evaluation of a goal ends after some solutions exactly when they are listed. -/
theorem yields_iff_lists (goalBelow : Goal.Below state.nextId goal)
    (envBelow : env.Below state.nextId) :
    goal.Yields env state solutions ↔ Lists state.database goal env solutions := by
  constructor
  · intro yields
    obtain ⟨enough, taken⟩ := yields
    have whole := taken enough (Nat.le_refl _) (solutions.length + 1)
    rw [Batch.upTo_succ_length] at whole
    exact lists_of_take (.refl _) (over_start goalBelow envBelow _) whole
  · intro lists
    exact lists.exists_batch goalBelow envBelow

/-- A search that ends has a list of its solutions. -/
theorem lists_of_ends {bound : Nat} (goalBelow : Goal.Below bound goal)
    (envBelow : env.Below bound)
    (ends : Search.Ends database (start goal env database) answers) :
    Lists database goal env answers := by
  -- Any state with the facts in which the variables exist will do.
  let state : State := ⟨Array.replicate bound .generated, database, []⟩
  have created : bound ≤ state.nextId := by
    simp [state, State.nextId]
  have known : (start goal env database).Below state.nextId := by
    apply Search.Over.mono (over_start goalBelow envBelow database)
    exact fun _ small => Nat.lt_of_lt_of_le small created
  have ready : Search.Ready database (start goal env database) state := ⟨.refl _, known⟩
  obtain ⟨enough, taken⟩ := ends.exists_take ready
  have whole := taken enough (Nat.le_refl _) (answers.length + 1) (Nat.lt_succ_self _)
  exact lists_of_take (.refl _) known whole

/-- What is listed depends on the stored facts only. -/
theorem Lists.of_sameFacts {other : Database} (lists : Lists database goal env answers)
    (same : database.SameFacts other) : Lists other goal env answers := by
  induction lists with
  | fact =>
      rw [same]
      exact .fact
  | conj _ _ firstHypothesis eachHypothesis => exact .conj firstHypothesis eachHypothesis
  | disj _ _ firstHypothesis secondHypothesis => exact .disj firstHypothesis secondHypothesis
  | call fresh _ bodyHypothesis => exact .call fresh bodyHypothesis

/-- In a larger environment, after renaming, those solutions are listed that can be merged with
it. -/
theorem Lists.wider {bound : Nat} (lists : Lists database goal env answers) (mapping : Renaming)
    (extension : larger.Extends (env.rename mapping))
    (goalBelow : Goal.Below bound (Goal.rename mapping goal)) (largerBelow : larger.Below bound) :
    Lists database (Goal.rename mapping goal) larger
      (answers.filterMap fun solution => (solution.rename mapping).merge larger) := by
  have ends := lists.ends_wider mapping extension
  rw [List.filterMap_map] at ends
  exact lists_of_ends goalBelow largerBelow ends

end Goal

/-! ## Bodies that are entered -/

theorem Environment.Extends.rename {larger smaller : Environment}
    (extension : larger.Extends smaller) (mapping : Renaming) :
    (larger.rename mapping).Extends (smaller.rename mapping) := by
  intro unknown value found
  obtain ⟨source, rfl⟩ := mapping.surjective unknown
  rw [Environment.get?_rename] at found ⊢
  exact extension source value found

namespace Rule

variable {database : Database} {rule : Rule} {general pattern : Pattern} {first second : Nat}
  {mapping : Renaming} {found : List Environment}

/-- A build can be moved to any other base at which the rule is known. -/
theorem exists_relocation (firstBelow : rule.Below first) (secondBelow : rule.Below second) :
    ∃ mapping : Renaming, rule.rename mapping = rule ∧
      MovesFrame mapping rule.template.frameSize first second := by
  have known : (rule.rename (.refl _)).Below second := by
    rw [rename_refl]
    exact secondBelow
  obtain ⟨mapping, sameRule, moves⟩ := rule.exists_moves firstBelow known
  rw [rename_refl] at sameRule
  exact ⟨mapping, sameRule, moves⟩

/-- Moved to the other base, the environment in which the body starts is that of the other build. -/
theorem entry_relocated (sameRule : rule.rename mapping = rule)
    (moves : MovesFrame mapping rule.template.frameSize first second) (pattern : Pattern) :
    rule.entry pattern second = (rule.entry pattern first).rename mapping := by
  have sameParameters := parameters_rename moves
  rw [sameRule] at sameParameters
  apply Environment.eq_rename
  intro parameter
  apply Option.ext
  intro constant
  rw [get?_entry, get?_entry, ← sameParameters, List.zip_map_right]
  constructor
  · intro member
    obtain ⟨⟨term, source⟩, paired, same⟩ := List.mem_map.1 member
    obtain ⟨sameTerm, sameImage⟩ := Prod.mk.inj same
    have sameSource : source = parameter := mapping.injective sameImage
    rw [id_eq] at sameTerm
    rw [← sameTerm, ← sameSource]
    exact paired
  · intro member
    exact List.mem_map.2 ⟨_, member, rfl⟩

/-- The pattern holds every value that the more general one holds. -/
def Refines (pattern general : Pattern) : Prop :=
  ∀ (position : Nat) (constant : Value),
    general[position]? = some (.value constant) → pattern[position]? = some (.value constant)

theorem extends_entry (refines : Refines pattern general) :
    (rule.entry pattern second).Extends (rule.entry general second) := by
  intro parameter constant found
  obtain ⟨position, bound, written, same⟩ := mem_zip_parameters.1 (get?_entry.1 found)
  exact get?_entry.2 (mem_zip_parameters.2
    ⟨position, bound, refines position constant written, same⟩)

/-- Entered elsewhere and with more values, a body has those of its solutions that agree with these
values. -/
theorem lists_of_entry
    (lists : Goal.Lists database (rule.body first) (rule.entry general first) found)
    (sameRule : rule.rename mapping = rule)
    (moves : MovesFrame mapping rule.template.frameSize first second) (below : rule.Below second)
    (refines : Refines pattern general) :
    Goal.Lists database (rule.body second) (rule.entry pattern second)
      (found.filterMap fun solution =>
        (solution.rename mapping).merge (rule.entry pattern second)) := by
  have sameBody := body_rename moves
  rw [sameRule] at sameBody
  have bodyBelow : Goal.Below (second + rule.template.frameSize)
      (Goal.rename mapping (rule.body first)) := by
    rw [sameBody]
    exact below_body below
  have entryBelow : (rule.entry pattern second).Below (second + rule.template.frameSize) :=
    over_entry (fun position bound => Nat.add_lt_add_left bound _) pattern
  have extension : (rule.entry pattern second).Extends
      ((rule.entry general first).rename mapping) := by
    rw [← entry_relocated sameRule moves]
    exact extends_entry refines
  have wide := lists.wider mapping extension bodyBelow entryBelow
  rw [sameBody] at wide
  exact wide

/-- What a query shows of a solution does not depend on where the body was built. -/
theorem project_relocated (sameRule : rule.rename mapping = rule)
    (moves : MovesFrame mapping rule.template.frameSize first second) (solution : Environment)
    (pattern : Pattern) :
    Pattern.project (solution.rename mapping) pattern (rule.parameters second) =
      Pattern.project solution pattern (rule.parameters first) := by
  have sameParameters := parameters_rename moves
  rw [sameRule] at sameParameters
  rw [← sameParameters, Pattern.project_rename]

/-- The solutions of a body show the same wherever it was built. -/
theorem exists_lists_elsewhere
    (lists : Goal.Lists database (rule.body first) (rule.entry pattern first) found)
    (firstBelow : rule.Below first) (secondBelow : rule.Below second) :
    ∃ moved, Goal.Lists database (rule.body second) (rule.entry pattern second) moved ∧
      (moved.map fun solution => Pattern.project solution pattern (rule.parameters second)) =
        found.map fun solution => Pattern.project solution pattern (rule.parameters first) := by
  obtain ⟨mapping, sameRule, moves⟩ := exists_relocation firstBelow secondBelow
  have entered : ∀ solution ∈ found,
      (solution.rename mapping).merge (rule.entry pattern second) =
        some (solution.rename mapping) := by
    intro solution member
    apply Environment.merge_of_extends
    rw [entry_relocated sameRule moves]
    exact (lists.extends solution member).rename mapping
  have moved := lists_of_entry lists sameRule moves secondBelow fun _ _ written => written
  rw [List.filterMap_congr entered, List.filterMap_eq_map'] at moved
  refine ⟨_, moved, ?_⟩
  rw [List.map_map]
  apply List.map_congr_left
  intro solution _
  exact project_relocated sameRule moves solution pattern

end Rule

/-! ## Queries -/

namespace RuleQuery

variable {rule : Rule} {pattern : Pattern} {state : State} {answers : List Pattern}

/-- The answers that an enumeration has given when it has come to its end are what the solutions of
the body show. -/
theorem exists_lists_of_take {fuel wanted : Nat} (below : rule.Below state.nextId)
    (taken : (((RuleQuery.mk rule pattern).enumerate state).1.take fuel wanted
      ((RuleQuery.mk rule pattern).enumerate state).2).1 = ⟨answers, .ended⟩) :
    ∃ found, Goal.Lists state.database (rule.body state.nextId)
        (rule.entry pattern state.nextId) found ∧
      (found.map fun solution =>
        Pattern.project solution pattern (rule.parameters state.nextId)) = answers := by
  simp only [RuleQuery.enumerate, Rule.instantiate_eq, Answers.take_eq, Rule.start_entered]
    at taken
  have ready := Rule.ready_entered below pattern
  rcases outcome : ((Goal.start (rule.body state.nextId) (rule.entry pattern state.nextId)
    state.database).take fuel wanted (rule.entered pattern state)).1 with ⟨found, completion⟩
  rw [outcome] at taken
  cases taken
  exact ⟨found, Goal.lists_of_take ready.sameFacts ready.below outcome, rfl⟩

/-- An enumeration ends after some answers exactly when these are what the solutions of the body
show. -/
theorem yields_iff_lists (below : rule.Below state.nextId) :
    (RuleQuery.mk rule pattern).Yields state answers ↔
      ∃ found, Goal.Lists state.database (rule.body state.nextId)
          (rule.entry pattern state.nextId) found ∧
        (found.map fun solution =>
          Pattern.project solution pattern (rule.parameters state.nextId)) = answers := by
  constructor
  · intro yields
    obtain ⟨enough, taken⟩ := yields
    have whole := taken enough (Nat.le_refl _) (answers.length + 1)
    rw [Batch.upTo_succ_length] at whole
    exact exists_lists_of_take below whole
  · intro listed
    obtain ⟨found, lists, shown⟩ := listed
    rw [← shown]
    exact Rule.exists_enumeration lists below

/-- An enumeration has come to its end when pulls have given the answers and then the end. -/
theorem yields_of_take {fuel wanted : Nat} (below : rule.Below state.nextId)
    (taken : (((RuleQuery.mk rule pattern).enumerate state).1.take fuel wanted
      ((RuleQuery.mk rule pattern).enumerate state).2).1 = ⟨answers, .ended⟩) :
    (RuleQuery.mk rule pattern).Yields state answers :=
  (yields_iff_lists below).2 (exists_lists_of_take below taken)

end RuleQuery

/-! ## Truth values -/

namespace Rule

variable {rule : Rule} {pattern : Pattern} {state : State} {truth other : Bool}

theorem Decides.length_eq (decides : rule.Decides pattern state truth) :
    pattern.length = rule.arity := by
  obtain ⟨enough, decided⟩ := decides
  have answered := decided enough (Nat.le_refl _)
  by_cases sameLength : pattern.length = rule.arity
  · exact sameLength
  · simp only [succeeds, checkArity, if_neg sameLength] at answered
    cases answered

theorem Decides.unique (first : rule.Decides pattern state truth)
    (second : rule.Decides pattern state other) : truth = other := by
  obtain ⟨firstEnough, firstDecided⟩ := first
  obtain ⟨secondEnough, secondDecided⟩ := second
  have early := firstDecided _ (Nat.le_max_left firstEnough secondEnough)
  have late := secondDecided _ (Nat.le_max_right firstEnough secondEnough)
  rw [early] at late
  exact Option.some.inj (Except.ok.inj late)

/-- When the answers come to an end, it is found out whether there is one. -/
theorem decides_of_yields {answers : List Pattern} (below : rule.Below state.nextId)
    (sameLength : pattern.length = rule.arity)
    (yields : (RuleQuery.mk rule pattern).Yields state answers) :
    rule.Decides pattern state (!answers.isEmpty) := by
  obtain ⟨found, lists, shown⟩ := (RuleQuery.yields_iff_lists below).1 yields
  rw [← shown, List.isEmpty_map]
  exact exists_succeeds lists below sameLength

/-- A truth value that some number of steps brings to light is found with any larger number. -/
theorem decides_of_succeeds {fuel : Nat}
    (answered : (rule.succeeds fuel pattern state).map Prod.fst = .ok (some truth)) :
    rule.Decides pattern state truth := by
  by_cases sameLength : pattern.length = rule.arity
  · simp only [Decides, succeeds, checkArity, if_pos sameLength, first, instantiate_eq]
      at answered ⊢
    rcases pulled : (Goal.start (rule.body state.nextId) (rule.entry pattern state.nextId)
        (rule.entered pattern state).database).pull fuel (rule.entered pattern state)
      with ⟨solution | _ | _, rest, after⟩ <;>
      rw [pulled] at answered
    · cases answered
      obtain ⟨enough, next, again, _⟩ := Search.exists_pull_found (Search.steps_of_pull pulled)
      refine ⟨enough, fun allowed bound => ?_⟩
      rw [again allowed bound]
      rfl
    · cases answered
      obtain ⟨steps, exhausted⟩ := Search.steps_of_pull pulled
      obtain ⟨enough, again⟩ := Search.exists_pull_ended steps exhausted
      refine ⟨enough, fun allowed bound => ?_⟩
      rw [again allowed bound]
      rfl
    · cases answered
  · simp only [succeeds, checkArity, if_neg sameLength] at answered
    cases answered

end Rule

end GroundLogic
