import GroundLogic.Proofs.Solutions.Beginnings
import GroundLogic.Proofs.Solutions.Facts
import GroundLogic.Proofs.Solutions.Specialization

/-!
# Asking a rule in two ways

A query fills the positions of its pattern one by one, and a variable that stands at two positions
may be answered with two values.  A goal has to bind its variables, and a solution of the body that
gives one of them two values is no solution of the goal.  Both read the solutions of one body: the
solutions of the goal are the answers to the query that can be reconciled with the pattern, in their
order, whether or not there is an end to them (`Rule.goal_reconciles`).
-/

namespace GroundLogic

/-! ## Reconciling an answer with a pattern -/

namespace Pattern

/-- The values that an answer holds at the positions of variables. -/
def held (pattern answer : Pattern) : List (Variable × Value) :=
  (pattern.zip answer).filterMap fun position =>
    position.1.unknown?.bind fun unknown =>
      position.2.value?.map fun constant => (unknown, constant)

/-- Binds each variable of the pattern to the value that the answer holds at its positions, if it
holds one there. -/
def reconcile? (pattern answer : Pattern) : Option Environment :=
  Environment.empty.bindAll (pattern.held answer)

variable {pattern answer : Pattern} {solution : Environment}

theorem mem_held {unknown : Variable} {constant : Value} :
    (unknown, constant) ∈ pattern.held answer ↔
      (Term.var unknown, Term.value constant) ∈ pattern.zip answer := by
  simp only [held, List.mem_filterMap, Option.bind_eq_some_iff, Option.map_eq_some_iff]
  constructor
  · intro listed
    obtain ⟨⟨term, shown⟩, member, written, isVariable, found, isValue, same⟩ := listed
    cases same
    cases term with
    | value own => cases isVariable
    | wildcard => cases isVariable
    | var known =>
        cases isVariable
        cases shown with
        | value own =>
            cases isValue
            exact member
        | var other => cases isValue
        | wildcard => cases isValue
  · exact fun member => ⟨_, member, unknown, rfl, constant, rfl, rfl⟩

/-- A solution of the goal binds the variables that are answered with a value, to that value. -/
theorem reconcile?_eq_some_iff :
    pattern.reconcile? answer = some solution ↔
      ∀ unknown constant, solution.get? unknown = some constant ↔
        (Term.var unknown, Term.value constant) ∈ pattern.zip answer := by
  simp only [reconcile?, Environment.bindAll_eq_some_iff, Environment.get?_empty, reduceCtorEq,
    false_or, mem_held]

/-- An answer cannot be reconciled with a pattern if it gives some variable two values. -/
theorem reconcile?_eq_none_iff :
    pattern.reconcile? answer = none ↔
      ∃ unknown first second, first ≠ second ∧
        (Term.var unknown, Term.value first) ∈ pattern.zip answer ∧
        (Term.var unknown, Term.value second) ∈ pattern.zip answer := by
  constructor
  · intro refused
    by_contra! agree
    -- Without a conflict, the values at the positions of a variable make up an assignment.
    have assigned : ∀ unknown, ∃ constant, ∀ found,
        (Term.var unknown, Term.value found) ∈ pattern.zip answer → constant = found := by
      intro unknown
      by_cases answered : ∃ constant, (Term.var unknown, Term.value constant) ∈ pattern.zip answer
      · obtain ⟨constant, member⟩ := answered
        refine ⟨constant, fun found again => ?_⟩
        by_contra different
        exact agree unknown constant found different member again
      · exact ⟨default, fun found member => absurd ⟨found, member⟩ answered⟩
    choose assignment agrees using assigned
    obtain ⟨solution, bound, _⟩ := Environment.exists_bindAll_within
      (Environment.within_empty assignment)
      fun binding member => agrees binding.1 binding.2 (mem_held.1 member)
    rw [reconcile?, bound] at refused
    cases refused
  · intro conflict
    obtain ⟨unknown, first, second, different, atFirst, atSecond⟩ := conflict
    rw [Option.eq_none_iff_forall_ne_some]
    intro solution reconciled
    have early := (reconcile?_eq_some_iff.1 reconciled unknown first).2 atFirst
    have late := (reconcile?_eq_some_iff.1 reconciled unknown second).2 atSecond
    rw [early] at late
    exact different (Option.some.inj late)

/-- A variable that is not repeated has one position. -/
theorem value_unique_of_nodup (distinct : pattern.unknowns.Nodup) {unknown : Variable}
    {first second : Term} (early : (Term.var unknown, first) ∈ pattern.zip answer)
    (late : (Term.var unknown, second) ∈ pattern.zip answer) : first = second := by
  induction pattern generalizing answer with
  | nil => cases early
  | cons term terms inductionHypothesis =>
      cases answer with
      | nil => cases early
      | cons shown others =>
          have tailDistinct : (unknowns terms).Nodup := by
            refine List.Nodup.sublist ?_ distinct
            exact (List.sublist_cons_self term terms).filterMap _
          -- A variable that stands at the head does not stand in the tail.
          have notLater : ∀ found, term = .var unknown →
              (Term.var unknown, found) ∉ terms.zip others := by
            intro found same member
            have repeated := mem_unknowns.2 (List.of_mem_zip member).1
            rw [same] at distinct
            exact (List.nodup_cons.1 distinct).1 repeated
          simp only [List.zip_cons_cons, List.mem_cons, Prod.mk.injEq] at early late
          rcases early with ⟨sameTerm, sameFirst⟩ | early
          · rcases late with ⟨_, sameSecond⟩ | late
            · rw [sameFirst, sameSecond]
            · exact absurd late (notLater second sameTerm.symm)
          · rcases late with ⟨sameTerm, _⟩ | late
            · exact absurd early (notLater first sameTerm.symm)
            · exact inductionHypothesis tailDistinct early late

theorem isSome_reconcile?_of_nodup (distinct : pattern.unknowns.Nodup) (answer : Pattern) :
    (pattern.reconcile? answer).isSome := by
  rw [Option.isSome_iff_ne_none]
  intro refused
  obtain ⟨unknown, first, second, different, atFirst, atSecond⟩ := reconcile?_eq_none_iff.1 refused
  exact different (Term.value.inj (value_unique_of_nodup distinct atFirst atSecond))

/-- A variable that is answered with a value at one position and left open at another is bound to
the value. -/
example : reconcile? [.var ⟨1⟩, .var ⟨1⟩] [.value (.symbol "a"), .var ⟨1⟩] =
    some (Routes.destination (.symbol "a")) :=
  rfl

/-! ## Solutions of a body -/

/-- What is shown at the position of a variable is a value if its parameter has one. -/
theorem held_project (solution : Environment) (pattern : Pattern) (parameters : List Variable) :
    pattern.held (project solution pattern parameters) = returned solution pattern parameters := by
  induction pattern generalizing parameters with
  | nil => rfl
  | cons term terms inductionHypothesis =>
      cases parameters with
      | nil => cases term <;> rfl
      | cons parameter others =>
          have tail := inductionHypothesis others
          cases term with
          | value constant => exact tail
          | wildcard => exact tail
          | var unknown =>
              simp only [held, returned, project, List.zip_cons_cons, List.filterMap_cons]
              cases solution.get? parameter with
              | none => exact tail
              | some constant => exact congrArg ((unknown, constant) :: ·) tail

/-- To bind a solution of the body back is to reconcile what it shows. -/
theorem bindBack_eq_reconcile? (solution : Environment) (pattern : Pattern)
    (parameters : List Variable) :
    bindBack solution pattern parameters .empty =
      pattern.reconcile? (project solution pattern parameters) := by
  rw [bindBack_eq_bindAll, reconcile?, held_project]

theorem narrow_empty (pattern : Pattern) : pattern.narrow .empty = pattern := by
  rw [narrow]
  apply List.map_id''
  intro term
  cases term <;> rfl

end Pattern

/-! ## Runs of a call -/

namespace Search

variable {body rest last : Search} {state after final : State} {arguments : Pattern}
  {parameters : List Variable} {env : Environment} {trace back : List (Environment × State)}

/-- A call runs as its body does and gives the solutions that can be bound back. -/
theorem exists_steps_returning (steps : body.Steps state trace rest final) :
    ∃ back, (Search.returning body arguments parameters env).Steps state back
        (.returning rest arguments parameters env) final ∧
      back.map Prod.fst =
        trace.filterMap fun found => Pattern.bindBack found.1 arguments parameters env := by
  induction steps with
  | refl search state => exact ⟨[], .refl _ _, rfl⟩
  | silent stepped _ inductionHypothesis =>
      obtain ⟨back, later, given⟩ := inductionHypothesis
      refine ⟨back, .silent ?_ later, given⟩
      simp only [step, stepped]
  | @answer search next rest state after final found trace stepped _ inductionHypothesis =>
      obtain ⟨back, later, given⟩ := inductionHypothesis
      cases returned : Pattern.bindBack found arguments parameters env with
      | none =>
          refine ⟨back, .silent (step_returning_of_none stepped returned) later, ?_⟩
          rw [List.filterMap_cons, returned, given]
      | some extended =>
          refine ⟨_, .answer (step_returning_of_some stepped returned) later, ?_⟩
          rw [List.map_cons, List.filterMap_cons, returned, given]

/-- A silent step of a call is one of its body, or one in which the body gives a solution that cannot
be bound back. -/
theorem exists_body_of_silent {next : Search}
    (stepped : (Search.returning body arguments parameters env).step state =
      (.silent next, after)) :
    ∃ others, next = .returning others arguments parameters env ∧
      (body.step state = (.silent others, after) ∨
        ∃ found, body.step state = (.answer found others, after) ∧
          Pattern.bindBack found arguments parameters env = none) := by
  rcases bodyStep : body.step state with ⟨⟨found, others⟩ | others | _, middle⟩
  · cases returned : Pattern.bindBack found arguments parameters env with
    | none =>
        rw [step_returning_of_none bodyStep returned] at stepped
        cases stepped
        exact ⟨others, rfl, Or.inr ⟨found, rfl, returned⟩⟩
    | some extended =>
        rw [step_returning_of_some bodyStep returned] at stepped
        cases stepped
  · simp only [step, bodyStep] at stepped
    cases stepped
    exact ⟨others, rfl, Or.inl rfl⟩
  · simp only [step, bodyStep] at stepped
    cases stepped

theorem exists_body_of_answer {next : Search} {extended : Environment}
    (stepped : (Search.returning body arguments parameters env).step state =
      (.answer extended next, after)) :
    ∃ found others, next = .returning others arguments parameters env ∧
      body.step state = (.answer found others, after) ∧
      Pattern.bindBack found arguments parameters env = some extended := by
  rcases bodyStep : body.step state with ⟨⟨found, others⟩ | others | _, middle⟩
  · cases returned : Pattern.bindBack found arguments parameters env with
    | none =>
        rw [step_returning_of_none bodyStep returned] at stepped
        cases stepped
    | some result =>
        rw [step_returning_of_some bodyStep returned] at stepped
        cases stepped
        exact ⟨found, others, rfl, rfl, returned⟩
  · simp only [step, bodyStep] at stepped
    cases stepped
  · simp only [step, bodyStep] at stepped
    cases stepped

/-- A run of a call is one of its body. -/
theorem exists_steps_of_returning
    (steps : (Search.returning body arguments parameters env).Steps state back last final) :
    ∃ trace rest, body.Steps state trace rest final ∧
      last = .returning rest arguments parameters env ∧
      back.map Prod.fst =
        trace.filterMap fun found => Pattern.bindBack found.1 arguments parameters env := by
  generalize whole : Search.returning body arguments parameters env = search at steps
  induction steps generalizing body with
  | refl search state =>
      subst whole
      exact ⟨[], body, .refl _ _, rfl, rfl⟩
  | silent stepped _ inductionHypothesis =>
      subst whole
      obtain ⟨others, rfl, bodyStep⟩ := exists_body_of_silent stepped
      obtain ⟨trace, rest, later, sameLast, given⟩ := inductionHypothesis rfl
      rcases bodyStep with bodyStep | ⟨found, bodyStep, returned⟩
      · exact ⟨trace, rest, .silent bodyStep later, sameLast, given⟩
      · refine ⟨_, rest, .answer bodyStep later, sameLast, ?_⟩
        rw [List.filterMap_cons, returned, given]
  | answer stepped _ inductionHypothesis =>
      subst whole
      obtain ⟨found, others, rfl, bodyStep, returned⟩ := exists_body_of_answer stepped
      obtain ⟨trace, rest, later, sameLast, given⟩ := inductionHypothesis rfl
      refine ⟨_, rest, .answer bodyStep later, sameLast, ?_⟩
      rw [List.map_cons, List.filterMap_cons, returned, given]

/-- The first step of a call builds its body; the others are those of the body. -/
theorem steps_call_iff {rule : Rule} :
    (Search.call rule arguments env).Steps state back last final ↔
      (back = [] ∧ last = .call rule arguments env ∧ final = state) ∨
        (Search.returning (rule.entrance arguments state) arguments
          (rule.parameters state.nextId) env).Steps (rule.entered arguments state)
            back last final := by
  constructor
  · intro steps
    cases steps with
    | refl => exact Or.inl ⟨rfl, rfl, rfl⟩
    | silent stepped later =>
        rw [step_call] at stepped
        cases stepped
        exact Or.inr later
    | answer stepped later =>
        rw [step_call] at stepped
        cases stepped
  · intro run
    rcases run with idle | later
    · obtain ⟨rfl, rfl, rfl⟩ := idle
      exact .refl _ _
    · exact .silent (step_call ..) later

end Search

/-! ## Query and goal -/

/-- The stretches with loops, and one variable for a place. -/
def Routes.roundabouts : State :=
  { Routes.loops with declarations := #[.named "Place" none] }

namespace Rule

variable {rule : Rule} {pattern : Pattern} {state other : State}

/-- What a run of the body shows, reconciled with the pattern, is what it gives bound back. -/
theorem filterMap_reconcile? (rule : Rule) (pattern : Pattern) (base : Nat)
    (trace : List (Environment × State)) :
    (trace.map fun found => Pattern.project found.1 pattern (rule.parameters base)).filterMap
        pattern.reconcile? =
      trace.filterMap fun found =>
        Pattern.bindBack found.1 pattern (rule.parameters base) .empty := by
  rw [List.filterMap_map]
  apply List.filterMap_congr
  intro found _
  rw [Pattern.bindBack_eq_reconcile?]
  rfl

theorem start_call (rule : Rule) (pattern : Pattern) (database : Database) :
    Goal.start (.call rule pattern) .empty database = .call rule pattern .empty := by
  rw [Goal.start, Pattern.narrow_empty]

theorem begins_call_iff (rule : Rule) (pattern : Pattern) (state : State)
    (solutions : List Environment) :
    Goal.Begins (.call rule pattern) .empty state solutions ↔
      ∃ answers, (RuleQuery.mk rule pattern).Begins state answers ∧
        answers.filterMap pattern.reconcile? = solutions := by
  rw [Goal.Begins, start_call, Search.begin_iff_steps]
  constructor
  · intro run
    obtain ⟨back, last, final, steps, given⟩ := run
    rcases Search.steps_call_iff.1 steps with idle | later
    · -- The call has not been entered yet, so nothing has been given on either side.
      rw [← given, idle.1]
      exact ⟨[], RuleQuery.begins_iff_steps.2 ⟨[], _, _, .refl _ _, rfl⟩, rfl⟩
    · obtain ⟨trace, rest, inside, _, returned⟩ := Search.exists_steps_of_returning later
      refine ⟨_, RuleQuery.begins_iff_steps.2 ⟨trace, rest, final, inside, rfl⟩, ?_⟩
      rw [filterMap_reconcile?, ← returned, given]
  · intro shown
    obtain ⟨answers, begins, reconciled⟩ := shown
    obtain ⟨trace, rest, final, inside, sameAnswers⟩ := RuleQuery.begins_iff_steps.1 begins
    obtain ⟨back, later, returned⟩ := Search.exists_steps_returning inside
    refine ⟨back, _, final, Search.steps_call_iff.2 (Or.inr later), ?_⟩
    rw [returned, ← filterMap_reconcile?, sameAnswers, reconciled]

theorem yields_call_iff (rule : Rule) (pattern : Pattern) (state : State)
    (solutions : List Environment) :
    Goal.Yields (.call rule pattern) .empty state solutions ↔
      ∃ answers, (RuleQuery.mk rule pattern).Yields state answers ∧
        answers.filterMap pattern.reconcile? = solutions := by
  rw [Goal.Yields, start_call, Search.settle_iff_steps]
  constructor
  · intro run
    obtain ⟨back, last, final, steps, exhausted, given⟩ := run
    rcases Search.steps_call_iff.1 steps with idle | later
    · rw [idle.2.1] at exhausted
      exact exhausted.elim
    · obtain ⟨trace, rest, inside, sameLast, returned⟩ := Search.exists_steps_of_returning later
      rw [sameLast] at exhausted
      refine ⟨_, RuleQuery.yields_iff_steps.2 ⟨trace, rest, final, inside, exhausted, rfl⟩, ?_⟩
      rw [filterMap_reconcile?, ← returned, given]
  · intro shown
    obtain ⟨answers, yields, reconciled⟩ := shown
    obtain ⟨trace, rest, final, inside, exhausted, sameAnswers⟩ :=
      RuleQuery.yields_iff_steps.1 yields
    obtain ⟨back, later, returned⟩ := Search.exists_steps_returning inside
    refine ⟨back, _, final, Search.steps_call_iff.2 (Or.inr later), exhausted, ?_⟩
    rw [returned, ← filterMap_reconcile?, sameAnswers, reconciled]

/-- The two ways to ask a rule agree.  The goal gives one solution for each answer to the query in
which no variable has two different values, in the order of the answers, and that solution binds the
variables that are answered with a value at some position, to that value.  This is so for any number
of answers that come first, and when one of the two comes to its end so does the other; they may be
begun in different states with the same facts.  If no variable is repeated, every answer gives a
solution. -/
theorem goal_reconciles (sameLength : pattern.length = rule.arity)
    (facts : state.database.SameFacts other.database)
    (known : Goal.Below state.nextId (.call rule pattern))
    (elsewhere : Goal.Below other.nextId (.call rule pattern)) :
    rule.query pattern = .ok ⟨rule, pattern⟩ ∧
    (∀ solutions, Goal.Begins (.call rule pattern) .empty other solutions ↔
      ∃ answers, (RuleQuery.mk rule pattern).Begins state answers ∧
        answers.filterMap pattern.reconcile? = solutions) ∧
    (∀ solutions, Goal.Yields (.call rule pattern) .empty other solutions ↔
      ∃ answers, (RuleQuery.mk rule pattern).Yields state answers ∧
        answers.filterMap pattern.reconcile? = solutions) ∧
    (∀ answer, pattern.reconcile? answer = none ↔
      ∃ unknown first second, first ≠ second ∧
        (Term.var unknown, Term.value first) ∈ pattern.zip answer ∧
        (Term.var unknown, Term.value second) ∈ pattern.zip answer) ∧
    (∀ answer solution, pattern.reconcile? answer = some solution ↔
      ∀ unknown constant, solution.get? unknown = some constant ↔
        (Term.var unknown, Term.value constant) ∈ pattern.zip answer) ∧
    (pattern.unknowns.Nodup → ∀ answers : List Pattern,
      (answers.filterMap pattern.reconcile?).map some = answers.map pattern.reconcile?) := by
  have moved : ∀ allowed wanted,
      ((Goal.start (.call rule pattern) .empty other.database).take allowed wanted other).1 =
        ((Goal.start (.call rule pattern) .empty state.database).take allowed wanted state).1 :=
    Goal.take_elsewhere facts known (Environment.over_empty _) elsewhere (Environment.over_empty _)
  refine ⟨?_, fun solutions => ?_, fun solutions => ?_, fun _ => Pattern.reconcile?_eq_none_iff,
    fun _ _ => Pattern.reconcile?_eq_some_iff, fun distinct answers => ?_⟩
  · simp only [query, checkArity, if_pos sameLength]
  · rw [← begins_call_iff]
    simp only [Goal.Begins, moved]
  · rw [← yields_call_iff]
    simp only [Goal.Yields, moved]
  · induction answers with
    | nil => rfl
    | cons answer others inductionHypothesis =>
        obtain ⟨solution, reconciled⟩ :=
          Option.isSome_iff_exists.1 (Pattern.isSome_reconcile?_of_nodup distinct answer)
        rw [List.filterMap_cons, reconciled, List.map_cons, List.map_cons, inductionHypothesis,
          reconciled]

/-- The routes along the stretches with loops never come to an end.  Of the first six, two lead back
to where they begin, and so these are the first solutions for a place at both ends. -/
theorem goal_reconciles_roundabouts :
    (RuleQuery.mk Routes.route [.var ⟨1⟩, .var ⟨1⟩]).Begins Routes.roundabouts
      [[.value (.symbol "a"), .value (.symbol "b")], [.value (.symbol "b"), .value (.symbol "b")],
        [.value (.symbol "b"), .value (.symbol "c")], [.value (.symbol "c"), .value (.symbol "c")],
        [.value (.symbol "a"), .value (.symbol "b")],
        [.value (.symbol "a"), .value (.symbol "c")]] ∧
    Goal.Begins (.call Routes.route [.var ⟨1⟩, .var ⟨1⟩]) .empty
      (Routes.route.opened Routes.roundabouts)
      [Routes.destination (.symbol "b"), Routes.destination (.symbol "c")] := by
  have answers := RuleQuery.begins_of_take
    (rfl : (((RuleQuery.mk Routes.route [.var ⟨1⟩, .var ⟨1⟩]).enumerate
      Routes.roundabouts).1.take 20 6 ((RuleQuery.mk Routes.route [.var ⟨1⟩, .var ⟨1⟩]).enumerate
        Routes.roundabouts).2).1 = ⟨_, .full⟩)
  have known : Goal.Below Routes.roundabouts.nextId
      (.call Routes.route [.var ⟨1⟩, .var ⟨1⟩]) :=
    ⟨Routes.route_below _, Pattern.over_of_unknowns (by decide)⟩
  have opened := precedes_opened Routes.route Routes.roundabouts
  have elsewhere := Goal.Over.mono known fun _ small =>
    Nat.lt_of_lt_of_le small opened.nextId_le
  exact ⟨answers, ((goal_reconciles rfl opened.sameFacts known elsewhere).2.1 _).2
    ⟨_, answers, rfl⟩⟩

end Rule

end GroundLogic
