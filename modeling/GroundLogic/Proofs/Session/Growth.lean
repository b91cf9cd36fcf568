import GroundLogic.Proofs.Session.Freshness
import GroundLogic.Proofs.State.Storage

/-!
# Desks grow

Whatever happens at a desk is a chain of changes of its state: steps and pulls of the streams, their
opening, and the operations in between (`grows_move`).  So in every run from the beginning the
tables agree with the journal (`keeps_of_arises`), and what the journal says was defined has been
defined on the way (`exists_define_of_arises`).
-/

namespace GroundLogic

namespace Search

theorem grows_step (search : Search) (state : State) : state.Grows (search.step state).2 := by
  rcases search.effect_step state with ⟨rule, arguments, _, _, same⟩ | same
  · rw [same]
    exact rule.grows_entered arguments state
  · rw [same]

theorem grows_pull (fuel : Nat) (search : Search) (state : State) :
    state.Grows (search.pull fuel state).2.2 := by
  induction fuel generalizing search state with
  | zero => exact .refl
  | succ fuel inductionHypothesis =>
      have first := search.grows_step state
      rw [pull]
      rcases stepped : search.step state with ⟨_ | _ | _, after⟩ <;> rw [stepped] at first
      · exact first
      · exact first.trans (inductionHypothesis _ after)
      · exact first

end Search

theorem Cursor.grows_pull (fuel : Nat) (cursor : Cursor) (state : State) :
    state.Grows (cursor.pull fuel state).2.2 := by
  cases cursor with
  | matching found =>
      simp only [pull]
      rcases found.next with ⟨_ | _, rest⟩ <;> exact .refl
  | solving search => exact search.grows_pull fuel state
  | answering answers => exact answers.search.grows_pull fuel state

theorem Source.grows_of_opening {source : Source} {cursor : Cursor} {state after : State}
    (opened : source.opening state = some (cursor, after)) : state.Grows after := by
  cases source with
  | evaluate goal env =>
      cases opened
      exact .refl
  | solve goal => exact (Goal.stores_of_validate (validate_of_opening opened).1).grows
  | iterate query =>
      simp only [opening, RuleQuery.enumerate, Rule.instantiate_eq] at opened
      cases opened
      exact query.rule.grows_entered query.pattern state
  | scan relation pattern =>
      exact (State.stores_of_checkArity (checkArity_of_opening opened).1).1.grows

theorem Rule.grows_of_succeeds {fuel : Nat} {rule : Rule} {arguments : Pattern}
    {state after : State} {truth : Option Bool}
    (success : rule.succeeds fuel arguments state = .ok (truth, after)) : state.Grows after := by
  have grows : state.Grows (rule.first fuel arguments state).2 := by
    simp only [first, instantiate_eq]
    exact (rule.grows_entered arguments state).trans (Search.grows_pull fuel _ _)
  simp only [succeeds] at success
  split at success
  · cases success
  · rcases solution : rule.first fuel arguments state with ⟨_ | _ | _, final⟩ <;>
      rw [solution] at success grows <;> cases success <;> exact grows

theorem Operation.grows_run {operation : Operation} {state : State}
    (below : operation.Below state.nextId) : state.Grows (operation.run state) := by
  cases operation with
  | declare declaration => exact .single (.declared state declaration)
  | validate goal =>
      simp only [run]
      cases validated : goal.validate state with
      | error error => exact .refl
      | ok after => exact (Goal.stores_of_validate validated).grows
  | define rule => exact rule.grows_define state
  | expand rule => exact Template.grows_defineEach _ _ _ state
  | query relation pattern =>
      simp only [run]
      cases queried : state.query relation pattern with
      | error error => exact .refl
      | ok result => exact (State.stores_of_query queried).grows
  | ask fuel rule arguments =>
      simp only [run]
      cases asked : rule.succeeds fuel arguments state with
      | error error => exact .refl
      | ok result => exact Rule.grows_of_succeeds asked
  | record event =>
      obtain ⟨rule, rfl⟩ := below
      exact .single (.registered state rule)

namespace Desk

variable {desk : Desk} {next : Move} {stream : OpenStream}

/-! ## Moves -/

theorem grows_move (known : desk.Knows next) : desk.state.Grows (desk.move next).state := by
  cases next with
  | operate operation => exact Operation.grows_run known
  | start source =>
      simp only [move]
      cases opening : source.opening desk.state with
      | none => exact .refl
      | some result => exact Source.grows_of_opening opening
  | clone index =>
      simp only [move]
      cases desk.streams[index]? <;> exact .refl
  | drop index => exact .refl
  | pull index fuel =>
      simp only [move]
      cases desk.streams[index]? with
      | none => exact .refl
      | some stream => exact stream.cursor.grows_pull fuel desk.state

/-- After a move, a stream is there with its source and its cursor as before, or it has been opened,
or it has been pulled. -/
theorem stream_cases (member : stream ∈ (desk.move next).streams) :
    stream ∈ desk.streams ∨
      (next = .start stream.source ∧
        stream.source.opening desk.state = some (stream.cursor, (desk.move next).state)) ∨
      ∃ index fuel, next = .pull index fuel ∧ ∃ pulled ∈ desk.streams,
        stream.source = pulled.source ∧
          stream.cursor = (pulled.cursor.pull fuel desk.state).2.1 ∧
          (desk.move next).state = (pulled.cursor.pull fuel desk.state).2.2 := by
  cases next with
  | operate operation => exact .inl member
  | start source =>
      simp only [move] at member ⊢
      cases opening : source.opening desk.state with
      | none =>
          rw [opening] at member
          exact .inl member
      | some result =>
          rw [opening] at member
          rcases List.mem_append.1 member with before | new
          · exact .inl before
          · rw [List.mem_singleton.1 new]
            exact .inr (.inl ⟨rfl, opening⟩)
  | clone index =>
      simp only [move] at member
      cases found : desk.streams[index]? with
      | none =>
          rw [found] at member
          exact .inl member
      | some original =>
          rw [found] at member
          rcases List.mem_append.1 member with before | new
          · exact .inl before
          · rw [List.mem_singleton.1 new]
            exact .inl (List.mem_of_getElem? found)
  | drop index => exact .inl (List.mem_of_mem_eraseIdx member)
  | pull index fuel =>
      simp only [move] at member ⊢
      cases found : desk.streams[index]? with
      | none =>
          rw [found] at member
          exact .inl member
      | some pulled =>
          rw [found] at member
          rcases List.mem_or_eq_of_mem_set member with before | same
          · exact .inl before
          · rw [same]
            exact .inr (.inr ⟨index, fuel, rfl, pulled, List.mem_of_getElem? found, rfl, rfl, rfl⟩)

/-! ## Runs from the beginning -/

theorem grows_of_arises (arises : desk.Arises) : State.initial.Grows desk.state := by
  induction arises with
  | initial => exact .refl
  | insert _ relation tuples inductionHypothesis =>
      exact inductionHypothesis.trans (State.grows_insertAll _ relation tuples)
  | move _ known inductionHypothesis => exact inductionHypothesis.trans (grows_move known)

theorem keeps_of_arises (arises : desk.Arises) (relation : Relation) :
    desk.state.Keeps relation :=
  (grows_of_arises arises).keeps relation

theorem exists_define_of_arises (arises : desk.Arises) {rule : Rule} {body : Goal}
    (noted : .defined rule body ∈ desk.state.journal) :
    ∃ start made, rule.define start = (.ok rule, made) ∧ made.Grows desk.state := by
  rcases (grows_of_arises arises).defined_cases noted with first | defined
  · exact absurd first List.not_mem_nil
  · exact defined

end Desk

end GroundLogic
