import GroundLogic.Proofs.Renaming.Searches
import GroundLogic.Proofs.State.Chronicle

/-!
# Calls that a search enters

A search that mentions created variables only enters calls that do (`Entering.over`), so what it
does to the state continues the journal: the builds that it causes take the next numbers of the
counter, in steps, pulls and sequences of pulls (`continues_take`).
-/

namespace GroundLogic

namespace Search

variable {admitted : Variable → Prop} {search : Search} {rule : Rule} {arguments : Pattern}
  {env : Environment} {state after : State}

theorem Entering.over (entering : search.Entering rule arguments env)
    (isOver : search.Over admitted) :
    rule.Over admitted ∧ Pattern.Over admitted arguments ∧ env.Over admitted := by
  induction entering with
  | call => exact isOver
  | current _ inductionHypothesis => exact inductionHypothesis isOver.1
  | left _ _ inductionHypothesis => exact inductionHypothesis isOver.2.1
  | first _ inductionHypothesis => exact inductionHypothesis isOver.1
  | body _ inductionHypothesis => exact inductionHypothesis isOver.1

theorem continues_step (below : search.Below state.nextId) :
    state.Continues (search.step state).2 := by
  rcases search.effect_step state with ⟨rule, arguments, env, entering, same⟩ | same
  · rw [same]
    exact Rule.continues_entered arguments (entering.over below).1
  · rw [same]
    exact .refl state

theorem continues_pull (fuel : Nat) (below : search.Below state.nextId) :
    state.Continues (search.pull fuel state).2.2 ∧
      (search.pull fuel state).2.1.Below (search.pull fuel state).2.2.nextId := by
  induction fuel generalizing search state with
  | zero => exact ⟨.refl state, below⟩
  | succ fuel inductionHypothesis =>
      have first := continues_step below
      rw [pull]
      rcases stepped : search.step state with ⟨_ | _ | _, after⟩ <;> rw [stepped] at first
      · exact ⟨first, (below_of_answer below stepped).2⟩
      · have later := inductionHypothesis (below_of_silent below stepped)
        exact ⟨first.trans later.1, later.2⟩
      · exact ⟨first, below.mono fun _ small => Nat.lt_of_lt_of_le small first.nextId_le⟩

theorem continues_take (fuel wanted : Nat) (below : search.Below state.nextId) :
    state.Continues (search.take fuel wanted state).2.2 := by
  induction wanted generalizing search state with
  | zero => exact .refl state
  | succ wanted inductionHypothesis =>
      obtain ⟨first, restBelow⟩ := continues_pull fuel below
      rw [take_succ]
      rcases pulled : search.pull fuel state with ⟨_ | _ | _, rest, after⟩ <;>
        rw [pulled] at first restBelow
      · exact first.trans (inductionHypothesis restBelow)
      · exact first
      · exact first

end Search

end GroundLogic
