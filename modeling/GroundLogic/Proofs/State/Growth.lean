import GroundLogic.Proofs.State.Precedence
import Mathlib.Logic.Relation

/-!
# Changes of a state

Whatever an operation does to a state, it does by a few kinds of change, one after the other: a
variable is declared, a build begins, an arity is fixed, a tuple is entered, a definition that has
passed is noted, or some other line is written.  `before.Grows after` says that changes of these
kinds lead from one state to another.  It is proved once of every operation, so a property that each
`Change` keeps is kept by all of them.
-/

namespace GroundLogic

namespace State

/-- One change of a state. -/
inductive Change : State → State → Prop
  | declared (state : State) (declaration : Declaration) :
      Change state (state.declare declaration).2
  | opened (rule : Rule) (state : State) : Change state (rule.opened state)
  | fixed {state : State} {relation : Relation} (arity : Nat)
      (unfixed : (state.table relation).arity = none) :
      Change state ((state.record (.arityFixed relation arity)).putTable relation
        { state.table relation with arity := some arity })
  /-- A tuple is entered that is stored already. -/
  | repeated {state : State} {relation : Relation} {tuple : Tuple}
      (fits : (state.table relation).arity = some tuple.length)
      (stored : tuple ∈ (state.table relation).tuples) :
      Change state (state.record (.inserted relation tuple))
  /-- A tuple is entered that is new. -/
  | added {state : State} {relation : Relation} {tuple : Tuple}
      (fits : (state.table relation).arity = some tuple.length)
      (new : tuple ∉ (state.table relation).tuples) :
      Change state ((state.record (.inserted relation tuple)).putTable relation
        { state.table relation with tuples := (state.table relation).tuples ++ [tuple] })
  /-- The definition of a rule has succeeded, and is noted last. -/
  | defined {before state : State} {rule : Rule} {body : Goal}
      (success : rule.define before = (.ok rule, state.record (.defined rule body))) :
      Change state (state.record (.defined rule body))
  | instantiated (state : State) (rule : Rule) (start : Environment) :
      Change state (state.record (.instantiated rule start))
  | registered (state : State) (rule : Rule) : Change state (state.record (.registered rule))

/-- Changes lead from the first state to the second. -/
abbrev Grows : State → State → Prop :=
  Relation.ReflTransGen Change

/-! ## Facts -/

/-- One of the changes that only concern what is stored. -/
inductive Storing : State → State → Prop
  | fixed {state : State} {relation : Relation} (arity : Nat)
      (unfixed : (state.table relation).arity = none) :
      Storing state ((state.record (.arityFixed relation arity)).putTable relation
        { state.table relation with arity := some arity })
  | repeated {state : State} {relation : Relation} {tuple : Tuple}
      (fits : (state.table relation).arity = some tuple.length)
      (stored : tuple ∈ (state.table relation).tuples) :
      Storing state (state.record (.inserted relation tuple))
  | added {state : State} {relation : Relation} {tuple : Tuple}
      (fits : (state.table relation).arity = some tuple.length)
      (new : tuple ∉ (state.table relation).tuples) :
      Storing state ((state.record (.inserted relation tuple)).putTable relation
        { state.table relation with tuples := (state.table relation).tuples ++ [tuple] })

/-- Nothing but arities and tuples has changed on the way from the first state to the second. -/
abbrev Stores : State → State → Prop :=
  Relation.ReflTransGen Storing

theorem Storing.change {before after : State} (storing : Storing before after) :
    Change before after := by
  cases storing with
  | fixed arity unfixed => exact .fixed arity unfixed
  | repeated fits stored => exact .repeated fits stored
  | added fits new => exact .added fits new

theorem Stores.grows {before after : State} (stores : before.Stores after) :
    before.Grows after :=
  Relation.ReflTransGen.mono (fun _ _ => Storing.change) _ _ stores

theorem stores_of_checkArity {state checked : State} {relation : Relation} {actual : Nat}
    (success : state.checkArity relation actual = .ok checked) :
    state.Stores checked ∧ (checked.table relation).arity = some actual := by
  simp only [checkArity] at success
  split at success
  · next unfixed =>
      cases success
      refine ⟨.single (.fixed actual unfixed), ?_⟩
      simp only [table, putTable, Database.table_put_self]
  · next expected fixed =>
      split at success
      · next same =>
          cases success
          exact ⟨.refl, by rw [fixed, same]⟩
      · cases success

theorem stores_of_insert {state inserted : State} {relation : Relation} {tuple : Tuple}
    {isNew : Bool} (success : state.insert relation tuple = .ok (isNew, inserted)) :
    state.Stores inserted := by
  simp only [insert] at success
  split at success
  · cases success
  · next checked passed =>
      obtain ⟨stores, fits⟩ := stores_of_checkArity passed
      split at success
      · next stored =>
          cases success
          exact stores.tail (.repeated fits stored)
      · next new =>
          cases success
          exact stores.tail (.added fits new)

theorem stores_insertAll (state : State) (relation : Relation) (tuples : List Tuple) :
    state.Stores (state.insertAll relation tuples).2 := by
  induction tuples generalizing state with
  | nil => exact .refl
  | cons tuple rest inductionHypothesis =>
      simp only [insertAll]
      cases inserted : state.insert relation tuple with
      | error error => exact .refl
      | ok result =>
          have later := (stores_of_insert inserted).trans (inductionHypothesis result.2)
          rcases others : result.2.insertAll relation rest with ⟨_ | _, final⟩ <;>
            simp only [others] <;> rw [others] at later <;> exact later

theorem grows_insertAll (state : State) (relation : Relation) (tuples : List Tuple) :
    state.Grows (state.insertAll relation tuples).2 :=
  (state.stores_insertAll relation tuples).grows

theorem stores_of_query {state queried : State} {relation : Relation} {pattern : Pattern}
    {found : Matches} (success : state.query relation pattern = .ok (found, queried)) :
    state.Stores queried := by
  simp only [query] at success
  split at success
  · cases success
  · next checked passed =>
      cases success
      exact (stores_of_checkArity passed).1

end State

namespace Goal

theorem stores_of_commit {pending : PendingArities} {state committed : State}
    (success : commit pending state = .ok committed) : state.Stores committed := by
  induction pending generalizing state with
  | nil =>
      cases success
      exact .refl
  | cons entry rest inductionHypothesis =>
      obtain ⟨relation, arity⟩ := entry
      simp only [commit] at success
      split at success
      · cases success
      · next fixed passed =>
          exact (State.stores_of_checkArity passed).1.trans (inductionHypothesis success)

theorem stores_of_validate {goal : Goal} {state validated : State}
    (success : validate goal state = .ok validated) : state.Stores validated := by
  simp only [validate] at success
  split at success
  · cases success
  · exact stores_of_commit success

end Goal

/-! ## Builds -/

namespace Rule

variable {rule : Rule} {before after : State}

/-- A definition is a build whose body is accepted, or only a build. -/
theorem define_cases (rule : Rule) (before : State) :
    ((∃ validated, Goal.validate (rule.body before.nextId) (rule.build before).2 = .ok validated ∧
        rule.define before =
          (.ok rule, validated.record (.defined rule (rule.body before.nextId)))) ∨
      ∃ error, Goal.validate (rule.body before.nextId) (rule.build before).2 = .error error ∧
        rule.define before = (.error error, (rule.build before).2)) := by
  simp only [define, accept, build]
  cases Goal.validate (rule.body before.nextId)
      (rule.template.build rule.captured rule.rules before) with
  | error error => exact .inr ⟨error, rfl, rfl⟩
  | ok validated => exact .inl ⟨validated, rfl, rfl⟩

theorem grows_define_of_build (built : before.Grows (rule.build before).2) :
    before.Grows (rule.define before).2 := by
  rcases rule.define_cases before with ⟨validated, passed, defined⟩ | ⟨error, _, refused⟩
  · rw [defined]
    exact (built.trans (Goal.stores_of_validate passed).grows).tail (.defined defined)
  · rw [refused]
    exact built

end Rule

namespace Template

/-- The rules inside a body are defined one after the other. -/
theorem defineEach_cons (template : Template) (templates : List Template)
    (scope : List Variable) (known : List Rule) (state : State) :
    defineEach (template :: templates) scope known state =
      defineEach templates scope (⟨template, scope, known⟩ :: known)
        (Rule.define ⟨template, scope, known⟩ state).2 := by
  rw [defineEach]
  simp only [Rule.define, Rule.build]
  cases Rule.accept ⟨template, scope, known⟩ (Rule.body ⟨template, scope, known⟩ state.nextId)
    (template.build scope known state) <;> rfl

mutual

theorem grows_build :
    ∀ (template : Template) (captured : List Variable) (rules : List Rule) (state : State),
      state.Grows (template.build captured rules state)
  | ⟨key, name, arity, locals, inner, body⟩, captured, rules, state => by
      rw [build]
      exact Relation.ReflTransGen.head (.opened _ state) (grows_defineEach inner _ _ _)

theorem grows_defineEach :
    ∀ (templates : List Template) (scope : List Variable) (known : List Rule) (state : State),
      state.Grows (defineEach templates scope known state)
  | [], _, _, _ => by
      rw [defineEach]
  | template :: templates, scope, known, state => by
      rw [defineEach_cons]
      exact (Rule.grows_define_of_build (grows_build template scope known state)).trans
        (grows_defineEach templates scope _ _)

end

end Template

namespace Rule

theorem grows_build (rule : Rule) (state : State) : state.Grows (rule.build state).2 :=
  Template.grows_build _ _ _ state

theorem grows_define (rule : Rule) (state : State) : state.Grows (rule.define state).2 :=
  grows_define_of_build (rule.grows_build state)

theorem grows_entered (rule : Rule) (arguments : Pattern) (state : State) :
    state.Grows (rule.entered arguments state) :=
  (rule.grows_build state).tail (.instantiated _ rule _)

end Rule

/-! ## What every change keeps -/

namespace State

variable {before after : State}

/-- A fixed arity stays. -/
theorem Change.aritiesWithin (change : Change before after) :
    before.database.AritiesWithin after.database := by
  cases change with
  | declared | opened | repeated | defined | instantiated | registered => exact .refl _
  | @fixed _ relation arity unfixed =>
      intro tested known found
      have different : relation ≠ tested := by
        rintro rfl
        cases found.symm.trans unfixed
      simp only [putTable, record, Database.table_put, if_neg different]
      exact found
  | @added _ relation tuple fits new =>
      intro tested known found
      simp only [putTable, record, Database.table_put]
      split
      · next same =>
          subst same
          exact found
      · exact found

/-- Stored tuples stay, in their order. -/
theorem Change.sublist (change : Change before after) (relation : Relation) :
    (before.table relation).tuples.Sublist (after.table relation).tuples := by
  cases change with
  | declared | opened | repeated | defined | instantiated | registered => exact .refl _
  | @fixed _ changed arity unfixed =>
      simp only [table, putTable, record, Database.table_put]
      split
      · next same =>
          subst same
          exact .refl _
      · exact .refl _
  | @added _ changed entered fits new =>
      simp only [table, putTable, record, Database.table_put]
      split
      · next same =>
          subst same
          exact List.sublist_append_left ..
      · exact .refl _

namespace Grows

theorem aritiesWithin (grows : before.Grows after) :
    before.database.AritiesWithin after.database := by
  induction grows with
  | refl => exact .refl _
  | tail _ change inductionHypothesis => exact inductionHypothesis.trans change.aritiesWithin

theorem sublist (grows : before.Grows after) (relation : Relation) :
    (before.table relation).tuples.Sublist (after.table relation).tuples := by
  induction grows with
  | refl => exact .refl _
  | tail _ change inductionHypothesis => exact inductionHypothesis.trans (change.sublist relation)

theorem subset (grows : before.Grows after) (relation : Relation) :
    (before.table relation).tuples ⊆ (after.table relation).tuples :=
  (grows.sublist relation).subset

end Grows

/-! ## Where definitions come from -/

section Defined

variable {rule : Rule} {body : Goal}

/-- Only the definition itself notes that a rule was defined. -/
theorem Change.defined_cases (change : Change before after)
    (noted : .defined rule body ∈ after.journal) :
    .defined rule body ∈ before.journal ∨ ∃ start, rule.define start = (.ok rule, after) := by
  cases change with
  | declared => exact .inl noted
  | opened | fixed | repeated | added | instantiated | registered =>
      rcases List.mem_cons.1 noted with same | earlier
      · cases same
      · exact .inl earlier
  | defined success =>
      rcases List.mem_cons.1 noted with same | earlier
      · cases same
        exact .inr ⟨_, success⟩
      · exact .inl earlier

/-- What is noted as defined has been before, or is defined on the way. -/
theorem Grows.defined_cases (grows : before.Grows after)
    (noted : .defined rule body ∈ after.journal) :
    .defined rule body ∈ before.journal ∨
      ∃ start made, rule.define start = (.ok rule, made) ∧ made.Grows after := by
  induction grows with
  | refl => exact .inl noted
  | tail _ change inductionHypothesis =>
      rcases change.defined_cases noted with earlier | ⟨start, made⟩
      · rcases inductionHypothesis earlier with first | ⟨start, made, success, further⟩
        · exact .inl first
        · exact .inr ⟨start, made, success, further.tail change⟩
      · exact .inr ⟨start, _, made, .refl⟩

end Defined

end State

end GroundLogic
