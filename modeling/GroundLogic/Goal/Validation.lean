import GroundLogic.State

/-!
# Validation of goals

A goal is valid when every fact pattern has the arity of its relation and every call has the number
of arguments of its rule.  A relation without an arity takes it from its first pattern in the goal;
these arities stay pending until the whole goal has passed, so a goal that is refused fixes
nothing.  Rule bodies are not entered.
-/

namespace GroundLogic

/-- Arities to be fixed, in the order in which they were met. -/
abbrev PendingArities := List (Relation × Nat)

namespace Goal

/-- The arity that a relation has, or will have once the pending ones are fixed. -/
def expectedArity (state : State) (pending : PendingArities) (relation : Relation) :
    Option Nat :=
  match (state.table relation).arity with
  | some arity => some arity
  | none => pending.lookup relation

/-- Goes through a goal from left to right and collects the arities it would fix.  The first
pattern or call that does not fit is the error. -/
def check (state : State) : Goal → PendingArities → Except ArityError PendingArities
  | .fact relation pattern, pending =>
      match expectedArity state pending relation with
      | some expected =>
          if expected = pattern.length then .ok pending
          else .error (.relation relation.name expected pattern.length)
      | none => .ok (pending ++ [(relation, pattern.length)])
  | .conj left right, pending =>
      match check state left pending with
      | .error error => .error error
      | .ok extended => check state right extended
  | .disj left right, pending =>
      match check state left pending with
      | .error error => .error error
      | .ok extended => check state right extended
  | .call rule arguments, pending =>
      match rule.checkArity arguments.length with
      | .error error => .error error
      | .ok () => .ok pending

section Check

variable {state : State} {left right : Goal} {pending extended : PendingArities}

/-- A fact has the expected arity, or is the first to say one. -/
theorem check_fact_iff {relation : Relation} {pattern : Pattern} :
    check state (.fact relation pattern) pending = .ok extended ↔
      (expectedArity state pending relation = some pattern.length ∧ extended = pending) ∨
        (expectedArity state pending relation = none ∧
          extended = pending ++ [(relation, pattern.length)]) := by
  simp only [check]
  cases expected : expectedArity state pending relation with
  | none => simp [eq_comm]
  | some arity =>
      by_cases same : arity = pattern.length
      · simp [same, eq_comm]
      · simp [same]

theorem check_conj_iff :
    check state (.conj left right) pending = .ok extended ↔
      ∃ middle,
        check state left pending = .ok middle ∧ check state right middle = .ok extended := by
  simp only [check]
  cases check state left pending <;> simp

theorem check_disj_iff :
    check state (.disj left right) pending = .ok extended ↔
      ∃ middle,
        check state left pending = .ok middle ∧ check state right middle = .ok extended :=
  check_conj_iff

theorem check_call_iff {rule : Rule} {arguments : Pattern} :
    check state (.call rule arguments) pending = .ok extended ↔
      arguments.length = rule.arity ∧ extended = pending := by
  simp only [check, Rule.checkArity]
  by_cases sameLength : arguments.length = rule.arity
  · simp [sameLength, eq_comm]
  · simp [sameLength]

end Check

/-- Fixes pending arities, one after the other. -/
def commit : PendingArities → State → Except ArityError State
  | [], state => .ok state
  | (relation, arity) :: pending, state =>
      match state.checkArity relation arity with
      | .error error => .error error
      | .ok fixed => commit pending fixed

/-- Checks a goal and then fixes the arities that it implies. -/
def validate (goal : Goal) (state : State) : Except ArityError State :=
  match check state goal [] with
  | .error error => .error error
  | .ok pending => commit pending state

end Goal

end GroundLogic
