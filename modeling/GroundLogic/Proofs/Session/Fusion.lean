import GroundLogic.Proofs.Session.Interleaving

/-!
# Streams that have ended

A stream that has come to its end stays there.  Every part of an exhausted search is polled again
when the search is, and none of them starts anything anew (`Search.step_of_exhausted`); so once a
pull has reported the end, every later one reports it too and leaves the state as it is, whatever
has happened to the state in between (`Cursor.fused`).
-/

namespace GroundLogic

/-! ## Searches -/

namespace Search

variable {search : Search} {fuel : Nat} {state : State}

/-- A pull that reports the end leaves an exhausted search. -/
theorem exhausted_of_pull (ended : (search.pull fuel state).1 = .ended) :
    (search.pull fuel state).2.1.Exhausted := by
  rcases pulled : search.pull fuel state with ⟨outcome, rest, after⟩
  rw [pulled] at ended
  cases ended
  exact (steps_of_pull pulled).2

/-- An exhausted search reports the end as soon as it may take a step, and does nothing else. -/
theorem pull_of_exhausted (exhausted : search.Exhausted) (fuel : Nat) (state : State) :
    search.pull fuel state = (if fuel = 0 then .unfinished else .ended, search, state) := by
  cases fuel with
  | zero => rfl
  | succ fuel => simp [pull, step_of_exhausted exhausted]

end Search

theorem Pull.map_eq_ended {Answer NewAnswer : Type} {convert : Answer → NewAnswer}
    {outcome : Pull Answer} : outcome.map convert = .ended ↔ outcome = .ended := by
  cases outcome <;> simp [Pull.map]

/-! ## Scans -/

namespace Matches

/-- A scan that reports its end has looked at all tuples. -/
theorem remaining_of_nextIn {pattern : Pattern} {tuples : List Tuple}
    (ended : (nextIn pattern tuples).1 = none) : (nextIn pattern tuples).2 = [] := by
  induction tuples with
  | nil => rfl
  | cons tuple rest inductionHypothesis =>
      simp only [nextIn] at ended ⊢
      split at ended
      · cases ended
      · next refused =>
          rw [if_neg refused]
          exact inductionHypothesis ended

theorem remaining_of_next {found : Matches} (ended : found.next.1 = none) :
    found.next.2.remaining = [] :=
  remaining_of_nextIn ended

end Matches

/-! ## Streams -/

namespace Cursor

/-- What is left of a stream after pulls, each with the number of steps that it may take and the
state in which it is made. -/
def after (cursor : Cursor) (pulls : List (Nat × State)) : Cursor :=
  pulls.foldl (fun rest pull => (rest.pull pull.1 pull.2).2.1) cursor

/-- Nothing is left to be pulled. -/
def Exhausted : Cursor → Prop
  | .matching found => found.remaining = []
  | .solving search => search.Exhausted
  | .answering answers => answers.search.Exhausted

variable {cursor : Cursor} {fuel : Nat} {state : State}

theorem after_append (cursor : Cursor) (early late : List (Nat × State)) :
    cursor.after (early ++ late) = (cursor.after early).after late :=
  List.foldl_append

theorem exhausted_of_pull (ended : (cursor.pull fuel state).1 = .ended) :
    (cursor.pull fuel state).2.1.Exhausted := by
  cases cursor with
  | matching found =>
      have last := @Matches.remaining_of_next found
      simp only [pull] at ended ⊢
      rcases scanned : found.next with ⟨_ | tuple, rest⟩ <;> rw [scanned] at ended last
      · exact last rfl
      · cases ended
  | solving search => exact Search.exhausted_of_pull (Pull.map_eq_ended.1 ended)
  | answering answers =>
      exact Search.exhausted_of_pull (Pull.map_eq_ended.1 (Pull.map_eq_ended.1 ended))

/-- A pull of a stream on which nothing is left changes neither the stream nor the state. -/
theorem pull_of_exhausted (exhausted : cursor.Exhausted) (fuel : Nat) (state : State) :
    (cursor.pull fuel state).2 = (cursor, state) ∧
      (fuel ≠ 0 → (cursor.pull fuel state).1 = .ended) := by
  cases cursor with
  | matching found =>
      obtain ⟨relation, pattern, remaining⟩ := found
      cases exhausted
      exact ⟨rfl, fun _ => rfl⟩
  | solving search =>
      rw [pull, Search.pull_of_exhausted exhausted]
      refine ⟨rfl, fun granted => ?_⟩
      rw [if_neg granted]
      rfl
  | answering answers =>
      rw [pull, Answers.pull, Search.pull_of_exhausted exhausted]
      refine ⟨rfl, fun granted => ?_⟩
      rw [if_neg granted]
      rfl

theorem after_of_exhausted (exhausted : cursor.Exhausted) (pulls : List (Nat × State)) :
    cursor.after pulls = cursor := by
  induction pulls with
  | nil => rfl
  | cons pull pulls inductionHypothesis =>
      have unmoved : (cursor.pull pull.1 pull.2).2.1 = cursor := by
        rw [(pull_of_exhausted exhausted pull.1 pull.2).1]
      simp only [after, List.foldl_cons] at inductionHypothesis ⊢
      rw [unmoved, inductionHypothesis]

/-- Every stream is fused.  Take the solutions of a goal, the answers to a query or the tuples that
match a pattern, and pull them as often as you like, in whatever states other streams and operations
have made in between.  Once a pull has reported the end, every later pull that may take a step
reports the end, and no pull changes the state any more: nothing is built, no variable is created
and no line is written. -/
theorem fused (cursor : Cursor) (early between : List (Nat × State)) (fuel allowed : Nat)
    (state later : State) (ended : ((cursor.after early).pull fuel state).1 = .ended) :
    (((cursor.after (early ++ (fuel, state) :: between)).pull allowed later).2.2 = later) ∧
      (allowed ≠ 0 →
        ((cursor.after (early ++ (fuel, state) :: between)).pull allowed later).1 = .ended) := by
  have exhausted := exhausted_of_pull ended
  have stays : cursor.after (early ++ (fuel, state) :: between) =
      ((cursor.after early).pull fuel state).2.1 := by
    rw [after_append]
    exact after_of_exhausted exhausted between
  obtain ⟨unchanged, reported⟩ := pull_of_exhausted exhausted allowed later
  rw [stays, unchanged]
  exact ⟨rfl, reported⟩

end Cursor

namespace Routes

/-- The places to which one can get from `a`, to be pulled. -/
def outward : Cursor :=
  .solving (onward.start .empty road.database)

/-- The state after so many pulls. -/
def stage (count : Nat) : State :=
  (outward.pulls (List.replicate count 20) road).2.2

end Routes

/-- After two places there is none, and none appears when the stream is pulled elsewhere. -/
theorem Cursor.fused_outward :
    ((Routes.outward.after [(20, Routes.stage 0), (20, Routes.stage 1)]).pull 20
        (Routes.stage 2)).1 = .ended ∧
    ((Routes.outward.after ([(20, Routes.stage 0), (20, Routes.stage 1)] ++
        (20, Routes.stage 2) :: [(5, .initial)])).pull 7 Routes.road).2.2 = Routes.road ∧
    ((Routes.outward.after ([(20, Routes.stage 0), (20, Routes.stage 1)] ++
        (20, Routes.stage 2) :: [(5, .initial)])).pull 7 Routes.road).1 = .ended := by
  have ended : ((Routes.outward.after [(20, Routes.stage 0), (20, Routes.stage 1)]).pull 20
      (Routes.stage 2)).1 = .ended := rfl
  obtain ⟨unchanged, reported⟩ := fused Routes.outward [(20, Routes.stage 0), (20, Routes.stage 1)]
    [(5, .initial)] 20 7 (Routes.stage 2) Routes.road ended
  exact ⟨ended, unchanged, reported (by decide)⟩

end GroundLogic
