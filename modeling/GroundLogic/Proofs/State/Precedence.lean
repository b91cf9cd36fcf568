import GroundLogic.Proofs.Rule.Arguments

/-!
# What happens between insertions

Apart from insertions, operations create variables, note events and fix arities, but leave the
stored tuples and the arities fixed before alone.  `before.Precedes after` says so of two states; it
holds of every operation that a search may perform or meet.
-/

namespace GroundLogic

/-- The same tuples are stored, whatever is known about arities. -/
def Database.SameFacts (first second : Database) : Prop :=
  ∀ relation, (first.table relation).tuples = (second.table relation).tuples

namespace Database.SameFacts

theorem refl (database : Database) : database.SameFacts database :=
  fun _ => rfl

theorem symm {first second : Database} (same : first.SameFacts second) :
    second.SameFacts first :=
  fun relation => (same relation).symm

theorem trans {first second third : Database} (early : first.SameFacts second)
    (late : second.SameFacts third) : first.SameFacts third :=
  fun relation => (early relation).trans (late relation)

end Database.SameFacts

/-- Every arity that is fixed in the first database is fixed in the second. -/
def Database.AritiesWithin (smaller larger : Database) : Prop :=
  ∀ relation arity, (smaller.table relation).arity = some arity →
    (larger.table relation).arity = some arity

namespace Database.AritiesWithin

theorem refl (database : Database) : database.AritiesWithin database :=
  fun _ _ fixed => fixed

theorem trans {first second third : Database} (early : first.AritiesWithin second)
    (late : second.AritiesWithin third) : first.AritiesWithin third :=
  fun relation arity fixed => late relation arity (early relation arity fixed)

end Database.AritiesWithin

/-- The second state knows at least the variables and the arities of the first and stores the same
facts. -/
structure State.Precedes (before after : State) : Prop where
  nextId_le : before.nextId ≤ after.nextId
  sameFacts : before.database.SameFacts after.database
  aritiesWithin : before.database.AritiesWithin after.database

namespace State.Precedes

theorem refl (state : State) : state.Precedes state :=
  ⟨Nat.le_refl _, .refl _, .refl _⟩

theorem trans {first second third : State} (early : first.Precedes second)
    (late : second.Precedes third) : first.Precedes third :=
  ⟨Nat.le_trans early.nextId_le late.nextId_le, early.sameFacts.trans late.sameFacts,
    early.aritiesWithin.trans late.aritiesWithin⟩

end State.Precedes

namespace State

theorem precedes_record (state : State) (event : Event) : state.Precedes (state.record event) :=
  ⟨Nat.le_refl _, .refl _, .refl _⟩

theorem precedes_declareAll (state : State) (declarations : List Declaration) :
    state.Precedes (state.declareAll declarations) :=
  ⟨by rw [nextId_declareAll]; exact Nat.le_add_right .., .refl _, .refl _⟩

theorem precedes_declare (state : State) (declaration : Declaration) :
    state.Precedes (state.declare declaration).2 :=
  ⟨by simp [declare, nextId], .refl _, .refl _⟩

theorem precedes_of_checkArity {state checked : State} {relation : Relation} {actual : Nat}
    (success : state.checkArity relation actual = .ok checked) : state.Precedes checked := by
  simp only [checkArity] at success
  split at success
  · next unfixed =>
      cases success
      refine ⟨Nat.le_refl _, fun tested => ?_, fun tested arity fixed => ?_⟩
      · simp only [putTable, record, Database.table_put]
        by_cases same : relation = tested
        · rw [if_pos same, ← same]
          rfl
        · rw [if_neg same]
      · have different : relation ≠ tested := by
          rintro rfl
          cases fixed.symm.trans unfixed
        simp only [putTable, record, Database.table_put, if_neg different]
        exact fixed
  · split at success
    · cases success
      exact .refl state
    · cases success

theorem precedes_of_query {state queried : State} {relation : Relation} {pattern : Pattern}
    {found : Matches} (success : state.query relation pattern = .ok (found, queried)) :
    state.Precedes queried := by
  simp only [query] at success
  split at success
  · cases success
  · next checked passed =>
      cases success
      exact precedes_of_checkArity passed

end State

namespace Goal

theorem precedes_of_commit {pending : PendingArities} {state committed : State}
    (success : commit pending state = .ok committed) : state.Precedes committed := by
  induction pending generalizing state with
  | nil =>
      cases success
      exact .refl _
  | cons entry rest inductionHypothesis =>
      obtain ⟨relation, arity⟩ := entry
      simp only [commit] at success
      split at success
      · cases success
      · next fixed passed =>
          exact (State.precedes_of_checkArity passed).trans (inductionHypothesis success)

theorem precedes_of_validate {goal : Goal} {state validated : State}
    (success : validate goal state = .ok validated) : state.Precedes validated := by
  simp only [validate] at success
  split at success
  · cases success
  · exact precedes_of_commit success

end Goal

theorem Rule.precedes_of_accept {rule : Rule} {body : Goal} {state accepted : State}
    (success : rule.accept body state = .ok accepted) : state.Precedes accepted := by
  simp only [accept] at success
  split at success
  · cases success
  · next validated passed =>
      cases success
      exact (Goal.precedes_of_validate passed).trans (State.precedes_record validated _)

/-! ## Builds -/

/-- The state once a build has begun: its frame is there and the build is noted. -/
def Rule.opened (rule : Rule) (state : State) : State :=
  (state.declareAll rule.template.declarations).record (.built rule state.nextId)

@[simp]
theorem Rule.nextId_opened (rule : Rule) (state : State) :
    (rule.opened state).nextId = state.nextId + rule.template.frameSize := by
  rw [opened, State.nextId_record, State.nextId_declareAll, Template.length_declarations]

theorem Rule.precedes_opened (rule : Rule) (state : State) :
    state.Precedes (rule.opened state) :=
  (state.precedes_declareAll _).trans (State.precedes_record _ _)

namespace Template

mutual

/-- A build creates its frame and whatever the rules inside need for their definitions. -/
theorem precedes_build :
    ∀ (template : Template) (captured : List Variable) (rules : List Rule) (state : State),
      (Rule.opened ⟨template, captured, rules⟩ state).Precedes
        (template.build captured rules state)
  | ⟨key, name, arity, locals, inner, body⟩, captured, rules, state => by
      rw [build]
      exact precedes_defineEach inner _ _ _

theorem precedes_defineEach :
    ∀ (templates : List Template) (scope : List Variable) (known : List Rule) (state : State),
      state.Precedes (defineEach templates scope known state)
  | [], _, _, state => by
      rw [defineEach]
      exact .refl state
  | template :: templates, scope, known, state => by
      rw [defineEach]
      refine ((Rule.precedes_opened ⟨template, scope, known⟩ state).trans
        (precedes_build template scope known state)).trans
          (State.Precedes.trans ?_ (precedes_defineEach templates scope _ _))
      split
      · exact .refl _
      · next accepted success => exact Rule.precedes_of_accept success

end

end Template

namespace Rule

theorem opened_precedes_build (rule : Rule) (state : State) :
    (rule.opened state).Precedes (rule.build state).2 := by
  cases rule
  exact Template.precedes_build _ _ _ state

/-- A rule without rules inside it only opens its frame. -/
theorem build_of_plain {rule : Rule} (plain : rule.template.inner = []) (state : State) :
    (rule.build state).2 = rule.opened state := by
  obtain ⟨⟨key, name, arity, locals, inner, body⟩, captured, rules⟩ := rule
  cases plain
  simp only [build, Template.build, Template.defineEach, opened]

theorem precedes_build (rule : Rule) (state : State) : state.Precedes (rule.build state).2 :=
  (rule.precedes_opened state).trans (rule.opened_precedes_build state)

theorem frame_le_build (rule : Rule) (state : State) :
    state.nextId + rule.template.frameSize ≤ (rule.build state).2.nextId := by
  rw [← nextId_opened]
  exact (rule.opened_precedes_build state).nextId_le

theorem precedes_define (rule : Rule) (state : State) : state.Precedes (rule.define state).2 := by
  simp only [define]
  split
  · exact precedes_build rule state
  · next accepted success => exact (precedes_build rule state).trans (precedes_of_accept success)

/-- The state after a call has been entered. -/
def entered (rule : Rule) (arguments : Pattern) (state : State) : State :=
  (rule.build state).2.record (.instantiated rule (rule.entry arguments state.nextId))

/-- Entering a call never fails. -/
theorem instantiate_eq (rule : Rule) (arguments : Pattern) (state : State) :
    rule.instantiate arguments state =
      (some ⟨⟨rule.parameters state.nextId, rule.body state.nextId⟩,
        rule.entry arguments state.nextId⟩, rule.entered arguments state) := by
  simp only [instantiate, build, bindConcrete_parameters]
  rfl

theorem precedes_entered (rule : Rule) (arguments : Pattern) (state : State) :
    state.Precedes (rule.entered arguments state) :=
  (precedes_build rule state).trans (State.precedes_record _ _)

theorem frame_le_entered (rule : Rule) (arguments : Pattern) (state : State) :
    state.nextId + rule.template.frameSize ≤ (rule.entered arguments state).nextId :=
  frame_le_build rule state

end Rule

end GroundLogic
