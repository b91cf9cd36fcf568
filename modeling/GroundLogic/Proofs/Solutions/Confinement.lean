import GroundLogic.Proofs.Goal.Reach
import GroundLogic.Proofs.Renaming.Answers
import GroundLogic.Proofs.Search.Entering

/-!
# What stays inside

A solution extends the environment that the search began with, and what it adds are values of
variables that are written in the goal.  The variables of rule bodies, built at whatever depth,
never get out: neither into solutions nor into the answers to a query (`take_confined`).
-/

namespace GroundLogic

/-! ## Solutions -/

namespace Goal

variable {goal : Goal} {env solution : Environment} {state : State} {fuel wanted : Nat}

/-- A variable of a goal or of the environment that it is evaluated in. -/
def Knows (goal : Goal) (env : Environment) (unknown : Variable) : Prop :=
  (∃ value, env.get? unknown = some value) ∨ unknown ∈ goal.unknowns

theorem grown_of_mem_take
    (member : solution ∈ ((start goal env state.database).take fuel wanted state).1.answers) :
    solution.Grown env (Knows goal env) :=
  Search.grown_of_take (Search.exposes_boundOr goal env _) fuel wanted state solution member

theorem lt_of_knows (goalBelow : Goal.Below state.nextId goal) (envBelow : env.Below state.nextId)
    {unknown : Variable} (known : Knows goal env unknown) : unknown.id < state.nextId := by
  rcases known with ⟨value, bound⟩ | written
  · exact envBelow unknown value bound
  · exact goalBelow.arguments _ (Pattern.mem_unknowns.1 written) unknown rfl

/-- The variables of a body that is built during the search are not bound in its solutions. -/
theorem get?_eq_none_of_built {events : Journal} {rule : Rule} {base : Nat} {own : Variable}
    (goalBelow : Goal.Below state.nextId goal) (envBelow : env.Below state.nextId)
    (journal : ((start goal env state.database).take fuel wanted state).2.2.journal =
      events ++ state.journal)
    (built : .built rule base ∈ events) (inFrame : own ∈ rule.frame base)
    (member : solution ∈ ((start goal env state.database).take fuel wanted state).1.answers) :
    solution.get? own = none := by
  obtain ⟨noted, sameJournal, dated⟩ :=
    Search.continues_take fuel wanted (over_start goalBelow envBelow state.database)
  obtain rfl : noted = events := List.append_cancel_right (sameJournal.symm.trans journal)
  have young : state.nextId ≤ own.id :=
    Nat.le_trans (dated.le_of_built built) (Rule.mem_frame_iff.1 inFrame).1
  cases found : solution.get? own with
  | none => rfl
  | some value =>
      have known := (grown_of_mem_take member).isOver own value found
      exact absurd (lt_of_knows goalBelow envBelow known) (Nat.not_lt.2 young)

end Goal

/-! ## Answers to queries -/

/-- A concrete term is repeated; an open one is repeated or replaced by a value. -/
def Term.Answered (written found : Term) : Prop :=
  found = written ∨ (written.isOpen = true ∧ ∃ constant, found = .value constant)

theorem Pattern.answered_project {pattern : Pattern} {parameters : List Variable}
    (sameLength : pattern.length = parameters.length) (solution : Environment) :
    List.Forall₂ Term.Answered pattern (project solution pattern parameters) := by
  induction pattern generalizing parameters with
  | nil => cases parameters <;> exact .nil
  | cons term terms inductionHypothesis =>
      cases parameters with
      | nil => cases sameLength
      | cons parameter others =>
          have later := inductionHypothesis (Nat.succ.inj sameLength)
          have filled : term.isOpen = true →
              term.Answered (((solution.get? parameter).map Term.value).getD term) := by
            intro isOpen
            cases solution.get? parameter with
            | none => exact .inl rfl
            | some value => exact .inr ⟨isOpen, value, rfl⟩
          cases term with
          | value constant => exact .cons (.inl rfl) later
          | var unknown => exact .cons (filled rfl) later
          | wildcard => exact .cons (filled rfl) later

/-- Every answer is what a solution makes of the pattern. -/
theorem Answers.exists_of_mem_take {fuel wanted : Nat} {answers : Answers} {state : State}
    {answer : Pattern} (member : answer ∈ (answers.take fuel wanted state).1.answers) :
    ∃ solution, answer = Pattern.project solution answers.pattern answers.parameters := by
  induction wanted generalizing answers state with
  | zero => cases member
  | succ wanted inductionHypothesis =>
      simp only [take, Pull.take, pull] at member
      rcases pulled : answers.search.pull fuel state with ⟨found | _ | _, rest, after⟩ <;>
        simp only [pulled, Pull.map] at member
      · rcases List.mem_cons.1 member with first | later
        · exact ⟨found, first⟩
        · have others : answer ∈
              (take fuel wanted { answers with search := rest } after).1.answers := later
          obtain ⟨solution, same⟩ := inductionHypothesis others
          exact ⟨solution, same⟩
      · cases member
      · cases member

/-- Solutions keep what is bound in the environment and bind nothing else but variables that are
written in the goal, so none of those that a body was built with; and answers to a query repeat its
pattern, except that open positions may be filled with values. -/
theorem Goal.take_confined (goal : Goal) (env : Environment) (query : RuleQuery) (state : State)
    (fuel wanted : Nat) :
    (∀ solution ∈ ((start goal env state.database).take fuel wanted state).1.answers,
      solution.Extends env ∧
        ∀ unknown value, solution.get? unknown = some value → env.get? unknown = none →
          unknown ∈ goal.unknowns) ∧
    (Goal.Below state.nextId goal → env.Below state.nextId → ∀ events,
      ((start goal env state.database).take fuel wanted state).2.2.journal =
        events ++ state.journal →
      ∀ rule base, .built rule base ∈ events → ∀ own ∈ rule.frame base,
        ∀ solution ∈ ((start goal env state.database).take fuel wanted state).1.answers,
          solution.get? own = none) ∧
    (query.pattern.length = query.rule.arity →
      ∀ answer ∈
          ((query.enumerate state).1.take fuel wanted (query.enumerate state).2).1.answers,
        List.Forall₂ Term.Answered query.pattern answer) := by
  refine ⟨fun solution member => ?_, ?_, fun sameLength answer member => ?_⟩
  · have grown := grown_of_mem_take member
    refine ⟨grown.extension, fun unknown value found unbound => ?_⟩
    rcases grown.isOver unknown value found with ⟨known, bound⟩ | written
    · rw [unbound] at bound
      cases bound
    · exact written
  · intro goalBelow envBelow events journal rule base built own inFrame solution member
    exact get?_eq_none_of_built goalBelow envBelow journal built inFrame member
  · obtain ⟨solution, rfl⟩ := Answers.exists_of_mem_take member
    simp only [RuleQuery.enumerate, Rule.instantiate_eq]
    exact Pattern.answered_project (sameLength.trans (query.rule.length_parameters _).symm) _

/-- The place on the way from `a` to `c` is a variable of the body; no solution shows it. -/
theorem Goal.take_confined_onward :
    (∀ solution ∈ [Routes.destination (.symbol "b"), Routes.destination (.symbol "c")],
      solution.get? ⟨4⟩ = none) ∧
    List.Forall₂ Term.Answered [.value (.symbol "a"), .wildcard]
      [.value (.symbol "a"), .value (.symbol "c")] := by
  obtain ⟨_, hidden, answered⟩ :=
    take_confined Routes.onward .empty ⟨Routes.route, [.value (.symbol "a"), .wildcard]⟩
      Routes.road 20 3
  constructor
  · have entered : ((start Routes.onward .empty Routes.road.database).take 20 3
        Routes.road).2.2.journal[5]? = some (.built Routes.route 2) := rfl
    exact hidden Routes.onward_below (Environment.over_empty _) _ (List.append_nil _).symm
      Routes.route 2 (List.mem_of_getElem? entered) ⟨4⟩ (by decide)
  · exact answered rfl _ (List.mem_cons_of_mem _ (List.mem_cons_self ..))

end GroundLogic
