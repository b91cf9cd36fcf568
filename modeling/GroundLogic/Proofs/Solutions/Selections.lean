import GroundLogic.Proofs.Environment.Merging
import GroundLogic.Proofs.Search.Visits
import GroundLogic.Proofs.Solutions.Facts
import Mathlib.Data.Set.Card

/-!
# Joins choose tuples

A goal made of facts and conjunctions finds its solutions by choosing a stored tuple at each fact.
Without wildcards a solution gives the chosen tuples away, since each of them can be read off its
pattern; so no solution is found twice, and there are as many as there are choices on which the
facts, their constants and the environment agree (`Goal.yields_selections`).

How the facts are nested does not matter here: what counts is the list of them from left to right.
-/

namespace GroundLogic

/-! ## The facts of a goal -/

/-- The facts of a formula from left to right, each relation with its pattern. -/
def Formula.facts {Argument Reference : Type} :
    Formula Argument Reference → List (Relation × List Argument)
  | .fact relation pattern => [(relation, pattern)]
  | .conj left right => left.facts ++ right.facts
  | .disj left right => left.facts ++ right.facts
  | .call _ _ => []

/-- A goal that is made of facts and conjunctions only. -/
def Goal.IsJoin : Goal → Prop
  | .fact _ _ => True
  | .conj left right => IsJoin left ∧ IsJoin right
  | .disj _ _ => False
  | .call _ _ => False

/-- All that is written in a join is written in its facts. -/
theorem Goal.IsJoin.arguments_eq {goal : Goal} (join : goal.IsJoin) :
    Formula.arguments goal = (Formula.facts goal).flatMap Prod.snd := by
  induction goal with
  | fact relation pattern => exact (List.append_nil _).symm
  | conj left right leftHypothesis rightHypothesis =>
      rw [Formula.arguments, Formula.facts, List.flatMap_append, leftHypothesis join.1,
        rightHypothesis join.2]
  | disj left right => exact join.elim
  | call rule arguments => exact join.elim

/-! ## Choices -/

/-- A tuple may be chosen for a fact: it is stored, it has the length of the pattern, and the
constants of the pattern. -/
structure Database.Offers (database : Database) (fact : Relation × Pattern) (tuple : Tuple) :
    Prop where
  stored : tuple ∈ (database.table fact.1).tuples
  sameLength : tuple.length = fact.2.length
  constants : fact.2.Agrees tuple

/-- What a choice of one tuple for each fact binds, fact by fact. -/
def Pattern.bindingsOf (facts : List (Relation × Pattern)) (chosen : List Tuple) :
    List (Variable × Value) :=
  (facts.zip chosen).flatMap fun choice => choice.1.2.bindings choice.2

/-- A choice of one tuple for each fact of a goal, from left to right, such that the environment
and the chosen tuples give no variable two values. -/
structure Goal.Selects (goal : Goal) (env : Environment) (database : Database)
    (chosen : List Tuple) : Prop where
  offered : List.Forall₂ database.Offers (Formula.facts goal) chosen
  agree : Environment.SingleValued
    (env.bindings ++ Pattern.bindingsOf (Formula.facts goal) chosen)

namespace Pattern

variable {pattern : Pattern} {tuple other : Tuple} {env larger extended : Environment}

theorem extension?_eq_some_iff_bindAll :
    pattern.extension? env tuple = some extended ↔
      tuple.length = pattern.length ∧ pattern.Agrees tuple ∧
        env.bindAll (pattern.bindings tuple) = some extended := by
  rw [extension?, Option.ite_none_right_eq_some, unify_eq_some_iff]

theorem Equals.of_extends (equal : Equals env pattern tuple) (extension : larger.Extends env) :
    Equals larger pattern tuple := by
  refine equal.imp fun term stored position => ?_
  cases position with
  | value => exact .value stored
  | @var unknown _ bound => exact .var (extension unknown stored bound)
  | wildcard => exact .wildcard stored

/-- A pattern without wildcards equals one tuple at most. -/
theorem Equals.unique (equal : Equals env pattern tuple) (otherEqual : Equals env pattern other)
    (closed : Term.wildcard ∉ pattern) : tuple = other := by
  induction equal generalizing other with
  | nil =>
      cases otherEqual
      rfl
  | cons position _ inductionHypothesis =>
      cases otherEqual with
      | cons otherPosition others =>
          obtain ⟨headClosed, tailClosed⟩ := List.ne_and_not_mem_of_not_mem_cons closed
          rw [inductionHypothesis others tailClosed]
          cases position with
          | value =>
              cases otherPosition
              rfl
          | var bound =>
              cases otherPosition with
              | var otherBound =>
                  rw [bound] at otherBound
                  rw [Option.some.inj otherBound]
          | wildcard => exact absurd rfl headClosed

end Pattern

/-! ## Solutions of a list of facts -/

namespace Database

variable {database : Database} {facts : List (Relation × Pattern)} {env solution : Environment}
  {chosen otherChosen : List Tuple}

/-- The environments in which a list of facts holds, found one fact after the other. -/
def solutions (database : Database) : List (Relation × Pattern) → Environment → List Environment
  | [], env => [env]
  | fact :: facts, env =>
      ((database.table fact.1).tuples.filterMap (fact.2.extension? env)).flatMap
        (solutions database facts)

/-- A single fact holds where a scan finds that it does. -/
theorem solutions_singleton (database : Database) (relation : Relation) (pattern : Pattern)
    (env : Environment) :
    database.solutions [(relation, pattern)] env =
      Pattern.answers pattern (pattern.narrow env) env (database.table relation).tuples := by
  rw [Pattern.answers_narrow]
  exact List.flatMap_singleton' _

theorem solutions_append (database : Database) (facts others : List (Relation × Pattern))
    (env : Environment) :
    database.solutions (facts ++ others) env =
      (database.solutions facts env).flatMap (database.solutions others) := by
  induction facts generalizing env with
  | nil => exact (List.append_nil _).symm
  | cons fact facts inductionHypothesis =>
      rw [List.cons_append, solutions, solutions, List.flatMap_assoc]
      exact congrArg (List.flatMap · _) (funext inductionHypothesis)

/-- A solution is what is bound by some choice of tuples. -/
theorem mem_solutions_iff :
    solution ∈ database.solutions facts env ↔
      ∃ chosen, List.Forall₂ database.Offers facts chosen ∧
        env.bindAll (Pattern.bindingsOf facts chosen) = some solution := by
  induction facts generalizing env with
  | nil =>
      simp only [solutions, List.mem_singleton, List.forall₂_nil_left_iff, exists_eq_left]
      exact ⟨fun same => same ▸ rfl, fun same => (Option.some.inj same).symm⟩
  | cons fact facts inductionHypothesis =>
      simp only [solutions, List.mem_flatMap, List.mem_filterMap, inductionHypothesis]
      constructor
      · rintro ⟨middle, ⟨tuple, stored, found⟩, chosen, offered, bound⟩
        obtain ⟨sameLength, constants, first⟩ := Pattern.extension?_eq_some_iff_bindAll.1 found
        refine ⟨tuple :: chosen, .cons ⟨stored, sameLength, constants⟩ offered, ?_⟩
        rw [Pattern.bindingsOf, List.zip_cons_cons, List.flatMap_cons, Environment.bindAll_append,
          first]
        exact bound
      · rintro ⟨all, offered, bound⟩
        obtain ⟨tuple, chosen, offers, others, rfl⟩ := List.forall₂_cons_left_iff.1 offered
        rw [Pattern.bindingsOf, List.zip_cons_cons, List.flatMap_cons,
          Environment.bindAll_append] at bound
        obtain ⟨middle, first, later⟩ := Option.bind_eq_some_iff.1 bound
        exact ⟨middle, ⟨tuple, offers.stored, Pattern.extension?_eq_some_iff_bindAll.2
          ⟨offers.sameLength, offers.constants, first⟩⟩, chosen, others, later⟩

theorem extends_of_mem_solutions (member : solution ∈ database.solutions facts env) :
    solution.Extends env := by
  obtain ⟨chosen, _, bound⟩ := mem_solutions_iff.1 member
  exact Environment.extends_of_bindAll bound

/-- Under a solution every pattern equals the tuple that was chosen for it. -/
theorem equals_of_bindAll (offered : List.Forall₂ database.Offers facts chosen)
    (bound : env.bindAll (Pattern.bindingsOf facts chosen) = some solution) :
    List.Forall₂ (fun fact => Pattern.Equals solution fact.2) facts chosen := by
  rw [List.forall₂_iff_zip] at offered ⊢
  refine ⟨offered.1, fun {fact tuple} member => Pattern.equals_iff.2 ?_⟩
  have offers := offered.2 member
  refine ⟨offers.sameLength, offers.constants, fun binding inside => ?_⟩
  exact Environment.get?_of_bindAll bound (List.mem_flatMap.2 ⟨_, member, inside⟩)

/-- Without wildcards, a solution determines the tuples that were chosen for it. -/
theorem chosen_unique (closed : ∀ fact ∈ facts, Term.wildcard ∉ fact.2)
    (equal : List.Forall₂ (fun fact => Pattern.Equals solution fact.2) facts chosen)
    (otherEqual : List.Forall₂ (fun fact => Pattern.Equals solution fact.2) facts otherChosen) :
    chosen = otherChosen := by
  induction equal generalizing otherChosen with
  | nil =>
      cases otherEqual
      rfl
  | cons head _ inductionHypothesis =>
      cases otherEqual with
      | cons otherHead others =>
          obtain ⟨headClosed, tailClosed⟩ := List.forall_mem_cons.1 closed
          rw [head.unique otherHead headClosed, inductionHypothesis tailClosed others]

/-- Different tuples for the same fact lead to different solutions. -/
theorem nodup_solutions (distinct : ∀ relation, (database.table relation).tuples.Nodup)
    (closed : ∀ fact ∈ facts, Term.wildcard ∉ fact.2) :
    (database.solutions facts env).Nodup := by
  induction facts generalizing env with
  | nil => exact List.nodup_singleton env
  | cons fact facts inductionHypothesis =>
      obtain ⟨headClosed, tailClosed⟩ := List.forall_mem_cons.1 closed
      refine List.nodup_flatMap.2 ⟨fun middle _ => inductionHypothesis tailClosed, ?_⟩
      refine List.pairwise_filterMap.2 ((distinct fact.1).imp ?_)
      intro tuple other different middle found otherMiddle otherFound solution member otherMember
      -- Whatever is bound later, the pattern still equals the tuple that was chosen first.
      have equal := (Pattern.equals_of_extension? found).2.of_extends
        (extends_of_mem_solutions member)
      have otherEqual := (Pattern.equals_of_extension? otherFound).2.of_extends
        (extends_of_mem_solutions otherMember)
      exact different (equal.unique otherEqual headClosed)

/-- A variable of a pattern is bound by the tuple that is chosen for it. -/
theorem exists_mem_bindingsOf_iff (offered : List.Forall₂ database.Offers facts chosen)
    {unknown : Variable} :
    (∃ value, (unknown, value) ∈ Pattern.bindingsOf facts chosen) ↔
      Term.var unknown ∈ facts.flatMap Prod.snd := by
  induction offered with
  | nil => simp [Pattern.bindingsOf]
  | @cons fact tuple facts chosen offers _ inductionHypothesis =>
      have atHead : (∃ value, (unknown, value) ∈ fact.2.bindings tuple) ↔
          Term.var unknown ∈ fact.2 := by
        simp only [Pattern.mem_bindings]
        constructor
        · intro somewhere
          obtain ⟨value, member⟩ := somewhere
          exact (List.of_mem_zip member).1
        · intro written
          rw [← List.map_fst_zip (Nat.le_of_eq offers.sameLength.symm)] at written
          obtain ⟨⟨term, value⟩, member, rfl⟩ := List.mem_map.1 written
          exact ⟨value, member⟩
      rw [Pattern.bindingsOf] at inductionHypothesis ⊢
      simp only [List.zip_cons_cons, List.flatMap_cons, List.mem_append, exists_or, atHead,
        inductionHypothesis]

/-- A solution binds the variables of the environment and those of the facts, and no others. -/
theorem isBound_of_mem_solutions (member : solution ∈ database.solutions facts env)
    (unknown : Variable) :
    solution.isBound unknown = true ↔
      env.isBound unknown = true ∨ Term.var unknown ∈ facts.flatMap Prod.snd := by
  obtain ⟨chosen, offered, bound⟩ := mem_solutions_iff.1 member
  rw [← exists_mem_bindingsOf_iff offered]
  simp only [Environment.isBound, Option.isSome_iff_exists,
    Environment.bindAll_eq_some_iff.1 bound unknown, exists_or]

end Database

/-! ## Counting -/

namespace Goal

variable {goal : Goal} {env : Environment} {database : Database} {state : State}
  {chosen : List Tuple}

/-- A choice is one that agrees when the environment can bind what it binds. -/
theorem selects_iff :
    goal.Selects env database chosen ↔
      List.Forall₂ database.Offers (Formula.facts goal) chosen ∧
        ∃ solution, env.bindAll (Pattern.bindingsOf (Formula.facts goal) chosen) =
          some solution := by
  rw [← Option.isSome_iff_exists, Environment.isSome_bindAll_iff]
  exact ⟨fun selects => ⟨selects.offered, selects.agree⟩, fun both => ⟨both.1, both.2⟩⟩

/-- There are as many agreeing choices as solutions. -/
theorem encard_selects (distinct : ∀ relation, (database.table relation).tuples.Nodup)
    (closed : ∀ fact ∈ Formula.facts goal, Term.wildcard ∉ fact.2) (env : Environment) :
    {chosen | goal.Selects env database chosen}.encard =
      (database.solutions (Formula.facts goal) env).length := by
  -- A choice stands for the solution that it binds.
  let solutionOf : List Tuple → Environment := fun chosen =>
    (env.bindAll (Pattern.bindingsOf (Formula.facts goal) chosen)).getD env
  have image : solutionOf '' {chosen | goal.Selects env database chosen} =
      ↑(database.solutions (Formula.facts goal) env).toFinset := by
    ext solution
    simp only [Set.mem_image, Set.mem_ofPred_eq, List.coe_toFinset, Database.mem_solutions_iff,
      selects_iff]
    constructor
    · rintro ⟨chosen, ⟨offered, found, bound⟩, rfl⟩
      refine ⟨chosen, offered, ?_⟩
      simp only [solutionOf, bound, Option.getD_some]
    · rintro ⟨chosen, offered, bound⟩
      refine ⟨chosen, ⟨offered, solution, bound⟩, ?_⟩
      simp only [solutionOf, bound, Option.getD_some]
  have injective : Set.InjOn solutionOf {chosen | goal.Selects env database chosen} := by
    intro chosen selects other otherSelects same
    obtain ⟨offered, solution, bound⟩ := selects_iff.1 selects
    obtain ⟨otherOffered, otherSolution, otherBound⟩ := selects_iff.1 otherSelects
    simp only [solutionOf, bound, otherBound, Option.getD_some] at same
    subst same
    exact Database.chosen_unique closed (Database.equals_of_bindAll offered bound)
      (Database.equals_of_bindAll otherOffered otherBound)
  rw [← injective.encard_image, image, Set.encard_coe_eq_coe_finsetCard,
    List.toFinset_card_of_nodup (Database.nodup_solutions distinct closed)]

end Goal

/-! ## Evaluation -/

namespace Continuation

/-- The state stays as it is at every answer. -/
def Keeps (resume : Continuation) : Prop :=
  ∀ answer visit, (resume answer visit).state = visit.state

/-- The continuation is given one answer after the other. -/
def each (resume : Continuation) (answers : List Environment) (visit : Visit) : Visit :=
  answers.foldl (fun current answer => resume answer current) visit

variable {resume inner : Continuation} {answers : List Environment}
  {further : Environment → List Environment} {visit : Visit}

theorem Keeps.state_each (keeps : resume.Keeps) (answers : List Environment) (visit : Visit) :
    (resume.each answers visit).state = visit.state := by
  induction answers generalizing visit with
  | nil => rfl
  | cons answer answers inductionHypothesis =>
      exact (inductionHypothesis (resume answer visit)).trans (keeps answer visit)

/-- A continuation that goes through further answers at each answer goes through all of them. -/
theorem Keeps.each_flatMap (keeps : inner.Keeps)
    (expands : ∀ answer current, current.state = visit.state →
      inner answer current = resume.each (further answer) current) :
    inner.each answers visit = resume.each (answers.flatMap further) visit := by
  induction answers generalizing visit with
  | nil => rfl
  | cons answer answers inductionHypothesis =>
      have later := @inductionHypothesis (inner answer visit)
        fun other current same => expands other current (same.trans (keeps answer visit))
      simp only [each, List.foldl_cons, List.flatMap_cons, List.foldl_append] at later ⊢
      rw [later, expands answer visit rfl, each]

theorem keeps_note : Keeps Visit.note := by
  intro answer visit
  rw [Visit.note]
  split <;> rfl

theorem each_note (answers : List Environment) (found : List (Environment × State))
    (state : State) :
    each Visit.note answers ⟨found, state, false⟩ =
      ⟨(answers.map fun answer => (answer, state)).reverse ++ found, state, false⟩ := by
  induction answers generalizing found with
  | nil => rfl
  | cons answer answers inductionHypothesis =>
      refine (inductionHypothesis ((answer, state) :: found)).trans ?_
      rw [List.map_cons, List.reverse_cons, List.append_assoc]
      rfl

end Continuation

namespace Goal

variable {goal : Goal} {state : State}

/-- A visit hands the solutions of the facts to its continuation, one after the other.  As long as
that leaves the state alone, the same facts are stored at each of them. -/
theorem IsJoin.visitWith_eq {visitCall : CallVisitor} {resume : Continuation}
    (join : goal.IsJoin) (keeps : resume.Keeps) (env : Environment) (visit : Visit) :
    visitWith visitCall goal env resume visit =
      resume.each (visit.state.database.solutions (Formula.facts goal) env) visit := by
  induction goal generalizing resume env visit with
  | fact relation pattern =>
      rw [visitWith, Formula.facts, Database.solutions_singleton, Continuation.each,
        Pattern.answers, List.foldl_filterMap, List.foldl_filter]
      congr 1
      funext current tuple
      rw [Pattern.answer?]
      split
      · cases Pattern.unify pattern tuple env <;> rfl
      · rfl
  | conj left right leftHypothesis rightHypothesis =>
      have rightEach := fun answer current => rightHypothesis join.2 keeps answer current
      have innerKeeps : Continuation.Keeps fun answer current =>
          visitWith visitCall right answer resume current := by
        intro answer current
        simp only [rightEach]
        exact keeps.state_each ..
      rw [visitWith, leftHypothesis join.1 innerKeeps, Formula.facts, Database.solutions_append]
      refine innerKeeps.each_flatMap fun answer current same => ?_
      rw [rightEach, same]
  | disj left right => exact join.elim
  | call rule arguments => exact join.elim

/-- The evaluation of a join ends, with the solutions of its facts. -/
theorem IsJoin.yields (join : goal.IsJoin) (env : Environment) (state : State) :
    Yields goal env state (state.database.solutions (Formula.facts goal) env) := by
  have visited : visitAll 0 goal env state = _ :=
    join.visitWith_eq Continuation.keeps_note env (.start state)
  rw [Visit.start, Continuation.each_note, List.append_nil] at visited
  obtain ⟨rest, final, steps, reached⟩ := steps_of_visitAll 0 goal env state
  rw [visited, List.reverse_reverse] at steps
  have batches := Search.exists_batch steps (reached (by rw [visited])).1
  simp only [List.map_map, Function.comp_def, List.map_id'] at batches
  exact batches

/-- The solutions of a join without wildcards are all different.  Each of them extends the
environment and binds the variables of the goal besides, and there are as many as there are ways to
choose a stored tuple of the pattern's length for each fact so that all of them agree with the
environment, with the constants and with each other. -/
theorem yields_selections (grows : State.initial.Grows state) (join : goal.IsJoin)
    (closed : Term.wildcard ∉ Formula.arguments goal) (env : Environment) :
    ∃ solutions : List Environment, Yields goal env state solutions ∧ solutions.Nodup ∧
      (∀ solution ∈ solutions, solution.Extends env ∧ ∀ unknown,
        solution.isBound unknown = true ↔
          env.isBound unknown = true ∨ unknown ∈ goal.unknowns) ∧
      {chosen | goal.Selects env state.database chosen}.encard = solutions.length := by
  have distinct : ∀ relation, (state.database.table relation).tuples.Nodup :=
    fun relation => (grows.keeps relation).distinct
  have closedFacts : ∀ fact ∈ Formula.facts goal, Term.wildcard ∉ fact.2 := by
    intro fact member written
    rw [join.arguments_eq] at closed
    exact closed (List.mem_flatMap.2 ⟨fact, member, written⟩)
  refine ⟨_, join.yields env state, Database.nodup_solutions distinct closedFacts,
    fun solution member => ⟨Database.extends_of_mem_solutions member, fun unknown => ?_⟩,
    encard_selects distinct closedFacts env⟩
  rw [Database.isBound_of_mem_solutions member, ← join.arguments_eq, unknowns,
    Pattern.mem_unknowns]

end Goal

/-- Two stretches, one after the other. -/
def Routes.twoStretches : Goal :=
  .conj (.fact stretch [.var ⟨1⟩, .var ⟨2⟩]) (.fact stretch [.var ⟨2⟩, .var ⟨3⟩])

/-- From `b`, two stretches can be chosen in three ways: twice the loop there, once that loop and
then the stretch to `c`, and the stretch to `c` with the loop there. -/
theorem Goal.yields_selections_loops :
    State.initial.Grows Routes.loops ∧ Routes.twoStretches.IsJoin ∧
      Term.wildcard ∉ Formula.arguments Routes.twoStretches ∧
      {chosen | Routes.twoStretches.Selects (Routes.destination (.symbol "b"))
        Routes.loops.database chosen}.encard = 3 := by
  have grows : State.initial.Grows Routes.loops := State.grows_insertAll ..
  have join : Routes.twoStretches.IsJoin := ⟨trivial, trivial⟩
  have closed : Term.wildcard ∉ Formula.arguments Routes.twoStretches := by decide
  refine ⟨grows, join, closed, ?_⟩
  obtain ⟨solutions, yields, _, _, number⟩ :=
    yields_selections grows join closed (Routes.destination (.symbol "b"))
  have same := yields.unique (join.yields _ _)
  rw [number, same]
  rfl

end GroundLogic
