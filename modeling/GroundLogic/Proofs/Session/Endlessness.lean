import GroundLogic.Proofs.Search.Endlessness
import GroundLogic.Proofs.Session.Charges
import GroundLogic.Proofs.Session.Fusion
import GroundLogic.Proofs.Solutions.Reconciling

/-!
# Left recursion

The stream of a left recursive rule never ends, neither as the stream of a call nor as that of a
query, for no arguments, facts and environment (`Rule.LeftRecursive.never_ends`).  This does not
touch what happens before the first pull: to define such a rule and to begin an enumeration takes
one build each (`Rule.buildsOnce_define`, `Rule.buildsOnce_enumerate`), and to validate goals and to
open their streams takes none.
-/

namespace GroundLogic

/-! ## Streams -/

namespace Cursor

/-- The search behind the stream is without end. -/
def Endless (rule : Rule) : Cursor → Prop
  | .matching _ => False
  | .solving search => search.Endless rule
  | .answering answers => answers.search.Endless rule

variable {rule : Rule} {cursor : Cursor}

theorem Endless.pull (endless : cursor.Endless rule) (recursive : rule.LeftRecursive)
    (fuel : Nat) (state : State) :
    (cursor.pull fuel state).1 ≠ .ended ∧ (cursor.pull fuel state).2.1.Endless rule := by
  cases cursor with
  | matching found => exact endless.elim
  | solving search =>
      have pulled := Search.Endless.pull endless recursive fuel state
      exact ⟨fun ended => pulled.1 (Pull.map_eq_ended.1 ended), pulled.2⟩
  | answering answers =>
      have pulled := Search.Endless.pull endless recursive fuel state
      refine ⟨fun ended => ?_, pulled.2⟩
      have searchEnded := Pull.map_eq_ended.1 (Pull.map_eq_ended.1 ended)
      exact pulled.1 searchEnded

theorem Endless.after (endless : cursor.Endless rule) (recursive : rule.LeftRecursive)
    (pulls : List (Nat × State)) : (cursor.after pulls).Endless rule := by
  induction pulls generalizing cursor with
  | nil => exact endless
  | cons pull pulls inductionHypothesis =>
      have next := (endless.pull recursive pull.1 pull.2).2
      exact inductionHypothesis next

end Cursor

/-! ## Builds -/

namespace State

variable {before after : State} {charges : List Charge}

/-- What is built between two states is what is charged. -/
theorem Incurs.builds_eq (incurs : before.Incurs charges after) :
    after.builds = before.builds ++ charges.filterMap Charge.built? := by
  obtain ⟨events, journal, explain, _⟩ := incurs
  rw [builds, journal, List.filterMap_append, explain.built]
  rfl

/-- Nothing is built by what only concerns what is stored. -/
theorem Stores.builds_eq (stores : before.Stores after) : after.builds = before.builds := by
  have built := stores.incurs.builds_eq
  rw [List.filterMap_nil, List.append_nil] at built
  exact built

end State

namespace Template

mutual

/-- The rules that a builder defines are smaller than the one that it belongs to. -/
theorem sizeOf_of_definitions :
    ∀ (template : Template) (captured : List Variable) (rules : List Rule) (state : State),
      ∀ charge ∈ template.definitions captured rules state, ∀ rule,
        charge.built? = some rule → sizeOf rule.template < sizeOf template
  | ⟨key, name, arity, locals, inner, body⟩, captured, rules, state => by
      intro charge member rule built
      rw [definitions] at member
      have smaller := sizeOf_of_definitionsOfEach inner _ _ _ charge member rule built
      have contained : sizeOf inner < sizeOf (Template.mk key name arity locals inner body) := by
        rw [Template.mk.sizeOf_spec]
        omega
      exact Nat.lt_trans smaller contained

theorem sizeOf_of_definitionsOfEach :
    ∀ (templates : List Template) (scope : List Variable) (known : List Rule) (state : State),
      ∀ charge ∈ definitionsOfEach templates scope known state, ∀ rule,
        charge.built? = some rule → sizeOf rule.template < sizeOf templates
  | [], _, _, _ => by
      intro charge member
      rw [definitionsOfEach] at member
      exact absurd member List.not_mem_nil
  | template :: templates, scope, known, state => by
      intro charge member rule built
      have whole : sizeOf (template :: templates) = 1 + sizeOf template + sizeOf templates :=
        List.cons.sizeOf_spec template templates
      rw [definitionsOfEach] at member
      rcases List.mem_cons.1 member with own | others
      · have same : template = rule.template := by
          rw [own] at built
          exact congrArg Rule.template (Option.some.inj built)
        rw [← same]
        omega
      · rcases List.mem_append.1 others with inside | later
        · have smaller := sizeOf_of_definitions template _ _ _ charge inside rule built
          omega
        · have smaller := sizeOf_of_definitionsOfEach templates _ _ _ charge later rule built
          omega

end

end Template

/-- The rule is built exactly once between the two states.  All else that is built there are rules
that its builder defines. -/
def State.BuildsOnce (before : State) (rule : Rule) (after : State) : Prop :=
  ∃ others, after.builds = before.builds ++ rule :: others ∧ rule ∉ others

namespace Rule

/-- The builder of a rule does not define the rule itself. -/
theorem not_mem_built_definitions (rule : Rule) (state : State) :
    rule ∉ (rule.definitions state).filterMap Charge.built? := by
  intro member
  obtain ⟨charge, charged, built⟩ := List.mem_filterMap.1 member
  have smaller := Template.sizeOf_of_definitions _ _ _ _ charge charged rule built
  exact Nat.lt_irrefl _ smaller

/-- A use or a definition of a rule builds it once. -/
theorem buildsOnce_of_incurs {rule : Rule} {charge : Charge} {before after state : State}
    (sameBuild : charge.built? = some rule)
    (incurs : before.Incurs (charge :: rule.definitions state) after) :
    before.BuildsOnce rule after := by
  have built := incurs.builds_eq
  rw [List.filterMap_cons_some sameBuild] at built
  exact ⟨_, built, rule.not_mem_built_definitions state⟩

theorem buildsOnce_define (rule : Rule) (state : State) :
    state.BuildsOnce rule (rule.define state).2 :=
  buildsOnce_of_incurs rfl (rule.incurs_define state)

theorem buildsOnce_enumerate (rule : Rule) (pattern : Pattern) (state : State) :
    state.BuildsOnce rule ((RuleQuery.mk rule pattern).enumerate state).2 := by
  have incurs := @incurs_entered rule (.enumeration rule) rfl pattern state
  simp only [RuleQuery.enumerate, instantiate_eq]
  exact buildsOnce_of_incurs rfl incurs

end Rule

theorem Goal.builds_validate (goal : Goal) (state : State) :
    ((Operation.validate goal).run state).builds = state.builds := by
  simp only [Operation.run]
  cases validated : goal.validate state with
  | error error => rfl
  | ok after => exact (Goal.stores_of_validate validated).builds_eq

theorem Goal.builds_of_solve {goal : Goal} {search : Search} {state after : State}
    (solved : goal.solve state = .ok (search, after)) : after.builds = state.builds := by
  simp only [solve] at solved
  cases validated : goal.validate state with
  | error error =>
      rw [validated] at solved
      cases solved
  | ok fixed =>
      rw [validated] at solved
      cases solved
      exact (stores_of_validate validated).builds_eq

/-! ## Left recursive rules -/

namespace Rule

variable {rule : Rule}

/-- A left recursive rule has no complete enumeration.  Whatever the arguments, the facts and the
environment are, no pull of the stream of its call ever reports the end, and none of the stream of
its answers does, however many steps the pulls may take and in whatever states they are made.  To
define the rule and to begin an enumeration nevertheless takes exactly one build of its body each.
Goals are put together without any state; validating them and opening their streams builds
nothing. -/
theorem LeftRecursive.never_ends (recursive : rule.LeftRecursive) (arguments : Pattern)
    (env : Environment) (state : State) :
    (∀ database pulls fuel later,
      (((Cursor.solving (Goal.start (.call rule arguments) env database)).after pulls).pull
        fuel later).1 ≠ .ended) ∧
    (∀ pulls fuel later,
      (((Cursor.answering ((RuleQuery.mk rule arguments).enumerate state).1).after pulls).pull
        fuel later).1 ≠ .ended) ∧
    state.BuildsOnce rule (rule.define state).2 ∧
    state.BuildsOnce rule ((RuleQuery.mk rule arguments).enumerate state).2 ∧
    ∀ goal : Goal, ((Operation.validate goal).run state).builds = state.builds ∧
      (∃ cursor, (Source.evaluate goal env).opening state = some (cursor, state)) ∧
      ∀ search after, goal.solve state = .ok (search, after) → after.builds = state.builds := by
  refine ⟨?_, ?_, rule.buildsOnce_define state, rule.buildsOnce_enumerate arguments state, ?_⟩
  · intro database pulls fuel later
    have endless : (Cursor.solving (Goal.start (.call rule arguments) env database)).Endless rule :=
      Search.Endless.call
    exact ((endless.after recursive pulls).pull recursive fuel later).1
  · intro pulls fuel later
    have endless : (Cursor.answering ((RuleQuery.mk rule arguments).enumerate state).1).Endless
        rule := by
      simp only [RuleQuery.enumerate, instantiate_eq]
      exact Search.endless_start (recursive state.nextId) _ _
    exact ((endless.after recursive pulls).pull recursive fuel later).1
  · intro goal
    refine ⟨goal.builds_validate state, ⟨_, rfl⟩, fun search after solved => ?_⟩
    exact Goal.builds_of_solve solved

end Rule

/-! ## A rule that never stops answering -/

namespace Routes

/-- Where a stretch leads from `a`, or the same question once more. -/
def again : Rule where
  template :=
    { key := 1, name := "again", arity := 1, locals := [], inner := []
      body := .disj (.fact stretch [.value (.symbol "a"), .slot 0]) (.call .self [.slot 0]) }
  captured := []
  rules := []

theorem again_leftRecursive : again.LeftRecursive :=
  Rule.leftRecursive_of_template (.disjRight .call)

/-- The body of the question, begun and with these stretches still to be looked at. -/
def asking (base : Nat) (remaining : List Tuple) : Search :=
  .alternative
    (.scan [.value (.symbol "a"), .var ⟨base⟩] [.value (.symbol "a"), .var ⟨base⟩] .empty remaining)
    (.call again [.var ⟨base⟩]) .empty

theorem start_again (unknown : Variable) (base : Nat) {database : Database}
    (facts : database.SameFacts road.database) :
    Goal.start (again.body base) (again.entry [.var unknown] base) database =
      asking base [[.symbol "a", .symbol "b"], [.symbol "b", .symbol "c"]] := by
  rw [Goal.start_congr facts]
  rfl

theorem step_asking (base : Nat) (state : State) :
    (asking base [[.symbol "a", .symbol "b"], [.symbol "b", .symbol "c"]]).step state =
      (.answer (Environment.empty.insert ⟨base⟩ (.symbol "b"))
        (asking base [[.symbol "b", .symbol "c"]]), state) :=
  rfl

/-- The body answers `b` about its parameter, which is `b` for the variable of the call. -/
theorem bindBack_again {unknown : Variable} {env : Environment} (unbound : env.get? unknown = none)
    (base : Nat) :
    Pattern.bindBack (Environment.empty.insert ⟨base⟩ (.symbol "b")) [.var unknown]
        (again.parameters base) env = some (env.insert unknown (.symbol "b")) := by
  have parameters : again.parameters base = [⟨base⟩] := rfl
  have shown : (Environment.empty.insert ⟨base⟩ (.symbol "b")).get? ⟨base⟩ =
      some (.symbol "b") := by
    rw [Environment.get?_insert, Environment.get?_empty, if_pos rfl, Option.none_or]
  have bound : env.bind unknown (.symbol "b") = some (env.insert unknown (.symbol "b")) := by
    rw [Environment.bind, unbound]
  rw [parameters]
  simp only [Pattern.bindBack, shown, bound]

theorem filterMap_again {unknown : Variable} {env : Environment} (unbound : env.get? unknown = none)
    {base number : Nat} {trace : List (Environment × State)}
    (answers : trace.map Prod.fst =
      List.replicate number (Environment.empty.insert ⟨base⟩ (.symbol "b"))) :
    trace.filterMap (fun found =>
        Pattern.bindBack found.1 [.var unknown] (again.parameters base) env) =
      List.replicate number (env.insert unknown (.symbol "b")) := by
  have returned : (trace.map Prod.fst).filterMap (fun answer =>
      Pattern.bindBack answer [.var unknown] (again.parameters base) env) =
        List.replicate number (env.insert unknown (.symbol "b")) := by
    rw [answers]
    exact List.filterMap_replicate_of_some (bindBack_again unbound base)
  rw [List.filterMap_map] at returned
  exact returned

/-- On the road, the question is answered by `b` as often as one likes. -/
theorem exists_steps_again (number : Nat) {unknown : Variable} {env : Environment} {state : State}
    (unbound : env.get? unknown = none) (facts : road.database.SameFacts state.database) :
    ∃ trace rest final,
      (Search.call again [.var unknown] env).Steps state trace rest final ∧
        trace.map Prod.fst = List.replicate number (env.insert unknown (.symbol "b")) := by
  induction number generalizing unknown env state with
  | zero => exact ⟨[], _, state, .refl _ _, rfl⟩
  | succ number inductionHypothesis =>
      have sameFacts := facts.trans (again.precedes_entered [.var unknown] state).sameFacts
      have begun := start_again unknown state.nextId sameFacts.symm
      obtain ⟨trace, rest, final, steps, answers⟩ := @inductionHypothesis ⟨state.nextId⟩ .empty
        (again.entered [.var unknown] state) rfl sameFacts
      have asked := step_asking state.nextId (again.entered [.var unknown] state)
      -- The body gives its own answer first, and then those of the call inside it.
      have body := Search.Steps.answer asked (.silent rfl steps)
      rw [← begun] at body
      obtain ⟨back, later, given⟩ := @Search.exists_steps_returning _ _ _ _ [.var unknown]
        (again.parameters state.nextId) env _ body
      refine ⟨back, _, final, .silent (Search.step_call ..) later, ?_⟩
      rw [given]
      apply filterMap_again unbound
      rw [List.map_cons, answers, List.replicate_succ]

theorem begins_again (number : Nat) :
    Goal.Begins (.call again [.var ⟨1⟩]) .empty road
      (List.replicate number (destination (.symbol "b"))) := by
  obtain ⟨trace, rest, final, steps, answers⟩ :=
    @exists_steps_again number ⟨1⟩ .empty road rfl (.refl _)
  exact Search.begin_iff_steps.2 ⟨trace, rest, final, steps, answers⟩

end Routes

/-- Any number of answers come out, and never the end. -/
theorem Rule.LeftRecursive.never_ends_again :
    Routes.again.LeftRecursive ∧
    (∀ number, Goal.Begins (.call Routes.again [.var ⟨1⟩]) .empty Routes.road
      (List.replicate number (Routes.destination (.symbol "b")))) ∧
    (∀ pulls fuel later,
      (((Cursor.solving (Goal.start (.call Routes.again [.var ⟨1⟩]) .empty
        Routes.road.database)).after pulls).pull fuel later).1 ≠ .ended) ∧
    Routes.road.BuildsOnce Routes.again (Routes.again.define Routes.road).2 := by
  obtain ⟨solutions, _, definition, _⟩ :=
    never_ends Routes.again_leftRecursive [.var ⟨1⟩] .empty Routes.road
  exact ⟨Routes.again_leftRecursive, Routes.begins_again, solutions Routes.road.database,
    definition⟩

end GroundLogic
