import GroundLogic.Proofs.Renaming.Searches

/-!
# Searches that come to an end

`Search.Ends` says that a search ends with certain answers in whatever states its steps are taken,
as long as the facts are the same and its variables exist.  The state may change between two steps:
the left search of a conjunction is stepped again only after the right goal was evaluated.  Each
kind of search ends when its parts do (`Ends.join`, `Ends.alternative`, `Ends.returning`,
`Ends.call`).
-/

namespace GroundLogic

namespace Search

/-- The facts are those of the database and the variables of the search have been created. -/
structure Ready (database : Database) (search : Search) (state : State) : Prop where
  sameFacts : state.database.SameFacts database
  below : search.Below state.nextId

/-- In all states that are ready, the search takes the same kind of step, and what is left of it
ends with the answers that are left. -/
inductive Ends (database : Database) : Search → List Environment → Prop
  | finished {search : Search} (exhausted : search.Exhausted) : Ends database search []
  | silent {search : Search} {answers : List Environment} (rest : State → Search)
      (stepped : ∀ state, Ready database search state →
        (search.step state).1 = .silent (rest state))
      (later : ∀ state, Ready database search state → Ends database (rest state) answers) :
      Ends database search answers
  | answer {search : Search} {env : Environment} {answers : List Environment}
      (rest : State → Search)
      (stepped : ∀ state, Ready database search state →
        (search.step state).1 = .answer env (rest state))
      (later : ∀ state, Ready database search state → Ends database (rest state) answers) :
      Ends database search (env :: answers)

namespace Ends

variable {database : Database} {current left body search other : Search} {right : Goal}
  {env : Environment} {answers early late found : List Environment} {state : State}

/-- From any state that is ready, a search that ends runs to its end. -/
theorem exists_steps (ends : Ends database search answers)
    (ready : Ready database search state) :
    ∃ trace rest final, search.Steps state trace rest final ∧ rest.Exhausted ∧
      trace.map Prod.fst = answers := by
  induction ends generalizing state with
  | finished exhausted => exact ⟨[], _, state, .refl _ state, exhausted, rfl⟩
  | @silent search answers next stepped _ laterHypothesis =>
      have order := precedes_step search state
      have searchStep := step_eq_of_fst (stepped state ready)
      obtain ⟨trace, rest, final, steps, exhausted, sameAnswers⟩ :=
        laterHypothesis state ready ⟨order.sameFacts.symm.trans ready.sameFacts,
          below_of_silent ready.below searchStep⟩
      exact ⟨trace, rest, final, .silent searchStep steps, exhausted, sameAnswers⟩
  | @answer search env answers next stepped _ laterHypothesis =>
      have order := precedes_step search state
      have searchStep := step_eq_of_fst (stepped state ready)
      obtain ⟨trace, rest, final, steps, exhausted, sameAnswers⟩ :=
        laterHypothesis state ready ⟨order.sameFacts.symm.trans ready.sameFacts,
          (below_of_answer ready.below searchStep).2⟩
      exact ⟨(env, (search.step state).2) :: trace, rest, final, .answer searchStep steps,
        exhausted, congrArg (env :: ·) sameAnswers⟩

/-- Pulls that are many enough and may take steps enough give all the answers. -/
theorem exists_take (ends : Ends database search answers) (ready : Ready database search state) :
    ∃ enough, ∀ allowed, enough ≤ allowed → ∀ number, answers.length < number →
      (search.take allowed number state).1 = ⟨answers, .ended⟩ := by
  obtain ⟨trace, rest, final, steps, exhausted, sameAnswers⟩ := ends.exists_steps ready
  obtain ⟨enough, pulled⟩ := Search.exists_take steps exhausted
  refine ⟨enough, fun allowed bound number more => ?_⟩
  rw [← sameAnswers, List.length_map] at more
  rw [pulled allowed bound number more, sameAnswers]

/-- Only the steps matter. -/
theorem of_step_eq (ends : Ends database search answers)
    (sameStep : ∀ state, other.step state = search.step state)
    (below : ∀ bound, other.Below bound → search.Below bound) :
    Ends database other answers := by
  have ready : ∀ state, Ready database other state → Ready database search state :=
    fun state otherReady => ⟨otherReady.sameFacts, below _ otherReady.below⟩
  cases ends with
  | finished exhausted =>
      have finished := sameStep .initial
      rw [step_of_exhausted exhausted] at finished
      exact .finished (exhausted_of_step finished)
  | silent rest stepped later =>
      refine .silent rest (fun state otherReady => ?_)
        (fun state otherReady => later state (ready state otherReady))
      rw [sameStep]
      exact stepped state (ready state otherReady)
  | answer rest stepped later =>
      refine .answer rest (fun state otherReady => ?_)
        (fun state otherReady => later state (ready state otherReady))
      rw [sameStep]
      exact stepped state (ready state otherReady)

theorem scan {pattern narrowed : Pattern} {remaining : List Tuple} :
    Ends database (.scan pattern narrowed env remaining)
      (Pattern.answers pattern narrowed env remaining) := by
  induction remaining with
  | nil => exact .finished rfl
  | cons tuple rest inductionHypothesis =>
      rw [Pattern.answers, List.filterMap_cons]
      cases answered : Pattern.answer? pattern narrowed env tuple with
      | none =>
          refine inductionHypothesis.of_step_eq (fun state => ?_) fun _ below => below
          simp only [step, Pattern.nextMatch_cons_of_none answered]
      | some extended =>
          refine .answer (fun _ => .scan pattern narrowed env rest) (fun state _ => ?_)
            (fun _ _ => inductionHypothesis)
          simp only [step, Pattern.nextMatch_cons_of_some answered]

/-- A search that passes on the steps of an inner one, and ends with further answers once the inner
one is exhausted. -/
theorem wrap {inside : Search} (around : Search → Search)
    (below : ∀ inner bound, (around inner).Below bound → inner.Below bound)
    (silently : ∀ inner state rest, (inner.step state).1 = .silent rest →
      ((around inner).step state).1 = .silent (around rest))
    (answering : ∀ inner state found rest, (inner.step state).1 = .answer found rest →
      ((around inner).step state).1 = .answer found (around rest))
    (afterwards : ∀ inner, inner.Exhausted → Ends database (around inner) late)
    (ends : Ends database inside early) : Ends database (around inside) (early ++ late) := by
  have innerReady : ∀ inner state, Ready database (around inner) state →
      Ready database inner state :=
    fun inner state ready => ⟨ready.sameFacts, below inner _ ready.below⟩
  induction ends with
  | finished exhausted => exact afterwards _ exhausted
  | silent rest stepped _ laterHypothesis =>
      refine .silent (fun state => around (rest state)) (fun state ready => ?_)
        (fun state ready => laterHypothesis state (innerReady _ state ready))
      exact silently _ state _ (stepped state (innerReady _ state ready))
  | answer rest stepped _ laterHypothesis =>
      refine .answer (fun state => around (rest state)) (fun state ready => ?_)
        (fun state ready => laterHypothesis state (innerReady _ state ready))
      exact answering _ state _ _ (stepped state (innerReady _ state ready))

theorem alternative (leftEnds : Ends database left early)
    (rightEnds : Ends database (Goal.start right env database) late) :
    Ends database (.alternative left right env) (early ++ late) := by
  refine wrap (fun inner => .alternative inner right env) (fun inner bound below => below.1)
    (fun inner state rest stepped => ?_) (fun inner state found rest stepped => ?_)
    (fun inner exhausted => ?_) leftEnds
  · rw [step, step_eq_of_fst stepped]
  · rw [step, step_eq_of_fst stepped]
  · refine .silent (fun _ => Goal.start right env database) (fun state ready => ?_)
      (fun _ _ => rightEnds)
    simp only [step, step_of_exhausted exhausted, Goal.start_congr ready.sameFacts]

private theorem join_current (currentEnds : Ends database current early)
    (leftEnds : Ends database (.join .ended left right) late) :
    Ends database (.join current left right) (early ++ late) := by
  refine wrap (fun inner => .join inner left right) (fun inner bound below => below.1)
    (fun inner state rest stepped => ?_) (fun inner state found rest stepped => ?_)
    (fun inner exhausted => ?_) currentEnds
  · rw [step, step_eq_of_fst stepped]
  · rw [step, step_eq_of_fst stepped]
  · refine leftEnds.of_step_eq (fun state => ?_) (fun bound below => ⟨trivial, below.2⟩)
    simp only [step, step_of_exhausted exhausted]

/-- A conjunction ends when its left goal does and its right goal does at each answer of the left
one. -/
theorem join {branches : List (Environment × List Environment)}
    (leftEnds : Ends database left (branches.map Prod.fst))
    (each : ∀ branch ∈ branches,
      Ends database (Goal.start right branch.1 database) branch.2) :
    Ends database (.join .ended left right) (branches.flatMap Prod.snd) := by
  have leftReady : ∀ left state, Ready database (.join .ended left right) state →
      Ready database left state := fun left state ready => ⟨ready.sameFacts, ready.below.2.1⟩
  generalize sameHeads : branches.map Prod.fst = heads at leftEnds
  induction leftEnds generalizing branches with
  | finished exhausted =>
      rw [List.map_eq_nil_iff.1 sameHeads]
      exact .finished ⟨trivial, exhausted⟩
  | @silent left heads rest stepped _ laterHypothesis =>
      refine .silent (fun state => .join .ended (rest state) right) (fun state ready => ?_)
        (fun state ready => laterHypothesis state (leftReady left state ready) each sameHeads)
      simp only [step]
      rw [step_eq_of_fst (stepped state (leftReady left state ready))]
  | @answer left found heads rest stepped _ laterHypothesis =>
      cases branches with
      | nil => cases sameHeads
      | cons branch others =>
          obtain ⟨rfl, sameOthers⟩ := List.cons.inj sameHeads
          refine .silent
            (fun state => .join (Goal.start right branch.1 database) (rest state) right)
            (fun state ready => ?_) (fun state ready => ?_)
          · have order := precedes_step left state
            simp only [step]
            rw [step_eq_of_fst (stepped state (leftReady left state ready))]
            simp only
            rw [Goal.start_congr (order.sameFacts.symm.trans ready.sameFacts)]
          · exact join_current (each branch (List.mem_cons_self ..))
              (laterHypothesis state (leftReady left state ready)
                (fun other member => each other (List.mem_cons_of_mem _ member)) sameOthers)

theorem returning {arguments : Pattern} {parameters : List Variable}
    (bodyEnds : Ends database body found) :
    Ends database (.returning body arguments parameters env)
      (found.filterMap fun answer => Pattern.bindBack answer arguments parameters env) := by
  have bodyReady : ∀ body state, Ready database (.returning body arguments parameters env) state →
      Ready database body state := fun body state ready => ⟨ready.sameFacts, ready.below.1⟩
  induction bodyEnds with
  | finished exhausted => exact .finished exhausted
  | @silent body found rest stepped _ laterHypothesis =>
      refine .silent (fun state => .returning (rest state) arguments parameters env)
        (fun state ready => ?_)
        (fun state ready => laterHypothesis state (bodyReady body state ready))
      rw [step, step_eq_of_fst (stepped state (bodyReady body state ready))]
  | @answer body answer found rest stepped _ laterHypothesis =>
      have bodyStep := fun state ready =>
        step_eq_of_fst (stepped state (bodyReady body state ready))
      rw [List.filterMap_cons]
      cases returned : Pattern.bindBack answer arguments parameters env with
      | none =>
          refine .silent (fun state => .returning (rest state) arguments parameters env)
            (fun state ready => ?_)
            (fun state ready => laterHypothesis state (bodyReady body state ready))
          rw [step_returning_of_none (bodyStep state ready) returned]
      | some extended =>
          refine .answer (fun state => .returning (rest state) arguments parameters env)
            (fun state ready => ?_)
            (fun state ready => laterHypothesis state (bodyReady body state ready))
          rw [step_returning_of_some (bodyStep state ready) returned]

/-- A call ends when its body does, wherever it is built. -/
theorem call {rule : Rule} {arguments : Pattern}
    (bodies : ∀ state, Ready database (.call rule arguments env) state →
      ∃ found, Ends database (Goal.start (rule.body state.nextId)
          (rule.entry arguments state.nextId) database) found ∧
        (found.filterMap fun answer =>
          Pattern.bindBack answer arguments (rule.parameters state.nextId) env) = answers) :
    Ends database (.call rule arguments env) answers := by
  refine .silent
    (fun state => .returning (Goal.start (rule.body state.nextId)
      (rule.entry arguments state.nextId) database) arguments (rule.parameters state.nextId) env)
    (fun state ready => ?_) (fun state ready => ?_)
  · have order := rule.precedes_entered arguments state
    rw [step_call, Goal.start_congr (order.sameFacts.symm.trans ready.sameFacts)]
  · obtain ⟨found, bodyEnds, same⟩ := bodies state ready
    rw [← same]
    exact bodyEnds.returning

end Ends

end Search

end GroundLogic
