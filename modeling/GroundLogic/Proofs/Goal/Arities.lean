import GroundLogic.Proofs.State.Precedence

/-!
# Validation and known arities

Once a goal has been checked, the arities that it implies can all be fixed (`exists_commit`), so the
check alone decides whether the goal is valid.  Fixing them in the state itself, where a refusal
half way would leave those before it fixed, therefore comes to the same (`validateInPlace_eq`).  The
check depends on the known arities only, and a goal that is valid stays valid where fewer of them
are known (`exists_validate_of_within`).
-/

namespace GroundLogic

namespace Goal

variable {state other : State} {goal : Goal} {pending otherPending extended : PendingArities}

/-! ## Fixing what was collected -/

/-- The pending arities belong to distinct relations that have none yet. -/
structure Unfixed (state : State) (pending : PendingArities) : Prop where
  distinct : (pending.map Prod.fst).Nodup
  absent : ∀ relation ∈ pending.map Prod.fst, (state.table relation).arity = none

theorem Unfixed.append {relation : Relation} (unfixed : Unfixed state pending)
    (unexpected : expectedArity state pending relation = none) (arity : Nat) :
    Unfixed state (pending ++ [(relation, arity)]) := by
  simp only [expectedArity] at unexpected
  split at unexpected
  · cases unexpected
  · next absent =>
      have unlisted : relation ∉ pending.map Prod.fst := by
        intro member
        obtain ⟨entry, listed, rfl⟩ := List.mem_map.1 member
        have different := List.lookup_eq_none_iff.1 unexpected entry listed
        simp at different
      constructor
      · rw [List.map_append, List.map_singleton, List.nodup_append]
        refine ⟨unfixed.distinct, List.pairwise_singleton _ _, ?_⟩
        intro listed member single isSingle same
        rw [same, List.mem_singleton.1 isSingle] at member
        exact unlisted member
      · intro tested member
        rw [List.map_append, List.mem_append] at member
        rcases member with before | now
        · exact unfixed.absent tested before
        · rw [List.mem_singleton.1 now]
          exact absent

theorem unfixed_of_check (success : check state goal pending = .ok extended)
    (unfixed : Unfixed state pending) : Unfixed state extended := by
  induction goal generalizing pending extended with
  | fact relation pattern =>
      rcases check_fact_iff.1 success with ⟨_, rfl⟩ | ⟨unexpected, rfl⟩
      · exact unfixed
      · exact unfixed.append unexpected pattern.length
  | conj left right leftHypothesis rightHypothesis =>
      obtain ⟨middle, leftSuccess, rightSuccess⟩ := check_conj_iff.1 success
      exact rightHypothesis rightSuccess (leftHypothesis leftSuccess unfixed)
  | disj left right leftHypothesis rightHypothesis =>
      obtain ⟨middle, leftSuccess, rightSuccess⟩ := check_disj_iff.1 success
      exact rightHypothesis rightSuccess (leftHypothesis leftSuccess unfixed)
  | call rule arguments =>
      obtain ⟨_, rfl⟩ := check_call_iff.1 success
      exact unfixed

/-- The first of the pending arities is fixed, and the others are still to be. -/
theorem Unfixed.exists_commit_cons {relation : Relation} {arity : Nat}
    (unfixed : Unfixed state ((relation, arity) :: pending)) :
    ∃ fixed : State, commit ((relation, arity) :: pending) state = commit pending fixed ∧
      Unfixed fixed pending ∧ fixed.declarations = state.declarations ∧
      fixed.journal = .arityFixed relation arity :: state.journal ∧
      ∀ tested, fixed.table tested =
        if relation = tested then { state.table tested with arity := some arity }
        else state.table tested := by
  obtain ⟨distinct, absent⟩ := unfixed
  rw [List.map_cons, List.nodup_cons] at distinct
  have absentHere := absent relation (List.mem_cons_self ..)
  simp only [commit, State.checkArity, absentHere]
  have tables : ∀ tested, ((state.record (.arityFixed relation arity)).putTable relation
      { state.table relation with arity := some arity }).table tested =
        if relation = tested then { state.table tested with arity := some arity }
        else state.table tested := by
    intro tested
    simp only [State.table, State.putTable, State.record, Database.table_put]
    by_cases same : relation = tested
    · rw [if_pos same, if_pos same, same]
    · rw [if_neg same, if_neg same]
  refine ⟨_, rfl, ⟨distinct.2, fun tested member => ?_⟩, rfl, rfl, tables⟩
  have different : relation ≠ tested := by
    rintro rfl
    exact distinct.1 member
  rw [tables, if_neg different]
  exact absent tested (List.mem_cons_of_mem _ member)

theorem exists_commit (unfixed : Unfixed state pending) :
    ∃ committed, commit pending state = .ok committed := by
  induction pending generalizing state with
  | nil => exact ⟨state, rfl⟩
  | cons entry rest inductionHypothesis =>
      obtain ⟨fixed, committed, restUnfixed, _⟩ := unfixed.exists_commit_cons
      rw [committed]
      exact inductionHypothesis restUnfixed

theorem exists_commit_of_check (checked : check state goal [] = .ok pending) :
    ∃ committed, commit pending state = .ok committed :=
  exists_commit (unfixed_of_check checked ⟨List.nodup_nil, fun _ member => by cases member⟩)

theorem exists_validate (checked : check state goal [] = .ok pending) :
    ∃ validated, validate goal state = .ok validated := by
  obtain ⟨committed, success⟩ := exists_commit_of_check checked
  refine ⟨committed, ?_⟩
  simp only [validate, checked, success]

/-! ## Fixing in place -/

/-- Fixes pending arities in the state itself, one after the other.  A refusal ends the loop, and
what has been fixed before it stays. -/
def commitInPlace : PendingArities → State → Except ArityError Unit × State
  | [], state => (.ok (), state)
  | (relation, arity) :: pending, state =>
      match state.checkArity relation arity with
      | .error error => (.error error, state)
      | .ok fixed => commitInPlace pending fixed

/-- Checks a goal and then fixes the arities that it implies in the state itself. -/
def validateInPlace (goal : Goal) (state : State) : Except ArityError Unit × State :=
  match check state goal [] with
  | .error error => (.error error, state)
  | .ok pending => commitInPlace pending state

theorem commitInPlace_of_commit {committed : State}
    (success : commit pending state = .ok committed) :
    commitInPlace pending state = (.ok (), committed) := by
  induction pending generalizing state with
  | nil =>
      cases success
      rfl
  | cons entry rest inductionHypothesis =>
      obtain ⟨relation, arity⟩ := entry
      simp only [commit] at success
      simp only [commitInPlace]
      cases fixed : state.checkArity relation arity with
      | error error =>
          rw [fixed] at success
          cases success
      | ok later =>
          rw [fixed] at success
          exact inductionHypothesis success

/-- In place, a goal that is refused leaves the state as it was. -/
theorem validateInPlace_eq (goal : Goal) (state : State) :
    validateInPlace goal state =
      match validate goal state with
      | .error error => (.error error, state)
      | .ok after => (.ok (), after) := by
  simp only [validateInPlace, validate]
  cases checked : check state goal [] with
  | error error => rfl
  | ok pending =>
      obtain ⟨committed, success⟩ := exists_commit_of_check checked
      simp only [success]
      exact commitInPlace_of_commit success

/-! ## Fewer arities -/

theorem expectedArity_append (state : State) (pending : PendingArities)
    (relation tested : Relation) (arity : Nat) :
    expectedArity state (pending ++ [(relation, arity)]) tested =
      (expectedArity state pending tested).or
        (if tested = relation then some arity else none) := by
  simp only [expectedArity, List.lookup_append]
  cases (state.table tested).arity with
  | some known => rfl
  | none =>
      by_cases same : tested = relation
      · simp [same]
      · have different : (tested == relation) = false := beq_false_of_ne same
        simp [List.lookup_cons, same, different]

/-- Every arity that is expected on the one side is expected on the other. -/
def Expects (smaller : State) (smallerPending : PendingArities) (larger : State)
    (largerPending : PendingArities) : Prop :=
  ∀ relation arity, expectedArity smaller smallerPending relation = some arity →
    expectedArity larger largerPending relation = some arity

theorem exists_check_of_expects (expects : Expects other otherPending state pending)
    (success : check state goal pending = .ok extended) :
    ∃ otherExtended, check other goal otherPending = .ok otherExtended ∧
      Expects other otherExtended state extended := by
  induction goal generalizing pending otherPending extended with
  | fact relation pattern =>
      have expected : expectedArity state extended relation = some pattern.length := by
        rcases check_fact_iff.1 success with ⟨expected, rfl⟩ | ⟨unexpected, rfl⟩
        · exact expected
        · rw [expectedArity_append, unexpected, Option.none_or, if_pos rfl]
      have kept : Expects other otherPending state extended := by
        intro tested arity found
        rcases check_fact_iff.1 success with ⟨_, rfl⟩ | ⟨_, rfl⟩
        · exact expects tested arity found
        · rw [expectedArity_append, expects tested arity found, Option.some_or]
      cases otherExpected : expectedArity other otherPending relation with
      | some arity =>
          have same := (kept relation arity otherExpected).symm.trans expected
          rw [same] at otherExpected
          exact ⟨otherPending, check_fact_iff.2 (Or.inl ⟨otherExpected, rfl⟩), kept⟩
      | none =>
          refine ⟨_, check_fact_iff.2 (Or.inr ⟨otherExpected, rfl⟩), fun tested arity found => ?_⟩
          rw [expectedArity_append, Option.or_eq_some_iff] at found
          rcases found with before | ⟨_, now⟩
          · exact kept tested arity before
          · obtain ⟨rfl, sameArity⟩ := Option.ite_none_right_eq_some.1 now
            rw [expected, sameArity]
  | conj left right leftHypothesis rightHypothesis =>
      obtain ⟨middle, leftSuccess, rightSuccess⟩ := check_conj_iff.1 success
      obtain ⟨otherMiddle, leftChecked, expectsMiddle⟩ := leftHypothesis expects leftSuccess
      obtain ⟨otherExtended, rightChecked, expectsLater⟩ :=
        rightHypothesis expectsMiddle rightSuccess
      exact ⟨otherExtended, check_conj_iff.2 ⟨otherMiddle, leftChecked, rightChecked⟩,
        expectsLater⟩
  | disj left right leftHypothesis rightHypothesis =>
      obtain ⟨middle, leftSuccess, rightSuccess⟩ := check_disj_iff.1 success
      obtain ⟨otherMiddle, leftChecked, expectsMiddle⟩ := leftHypothesis expects leftSuccess
      obtain ⟨otherExtended, rightChecked, expectsLater⟩ :=
        rightHypothesis expectsMiddle rightSuccess
      exact ⟨otherExtended, check_disj_iff.2 ⟨otherMiddle, leftChecked, rightChecked⟩,
        expectsLater⟩
  | call rule arguments =>
      obtain ⟨sameLength, rfl⟩ := check_call_iff.1 success
      exact ⟨otherPending, check_call_iff.2 ⟨sameLength, rfl⟩, expects⟩

/-- A goal that is valid stays valid where fewer arities are fixed. -/
theorem exists_validate_of_within {validated : State}
    (within : other.database.AritiesWithin state.database)
    (success : validate goal state = .ok validated) :
    ∃ otherValidated, validate goal other = .ok otherValidated := by
  simp only [validate] at success
  split at success
  · cases success
  · next pending checked =>
      have expects : Expects other [] state [] := by
        intro relation arity expected
        simp only [expectedArity] at expected ⊢
        split at expected
        · next fixed =>
            cases expected
            rw [State.table, within relation arity fixed]
        · cases expected
      obtain ⟨otherPending, otherChecked, _⟩ := exists_check_of_expects expects checked
      exact exists_validate otherChecked

end Goal

theorem State.exists_checkArity_of_within {state other fixed : State} {relation : Relation}
    {actual : Nat} (within : other.database.AritiesWithin state.database)
    (success : state.checkArity relation actual = .ok fixed) :
    ∃ otherFixed, other.checkArity relation actual = .ok otherFixed := by
  cases known : (other.table relation).arity with
  | none =>
      simp only [checkArity, known]
      exact ⟨_, rfl⟩
  | some arity =>
      have sameArity : (state.table relation).arity = some arity := within relation arity known
      simp only [checkArity, sameArity] at success
      split at success
      · next same => exact ⟨other, by simp only [checkArity, known, same, if_true]⟩
      · cases success

end GroundLogic
