import GroundLogic.Proofs.Goal.Arities
import GroundLogic.Proofs.Renaming.Answers
import GroundLogic.Session.Basic

/-!
# One stream in two states

A stream that is opened from one source in two states with the same facts, and pulled in both as
often as one likes, gives the same items in both, although the bodies that are built on the way have
different variables (`alike_opening`, `alike_pull`).
-/

namespace GroundLogic

/-! ## Sources -/

/-- What a stream is opened from. -/
inductive Source where
  | evaluate (goal : Goal) (env : Environment)
  | solve (goal : Goal)
  | iterate (query : RuleQuery)
  | scan (relation : Relation) (pattern : Pattern)

namespace Source

/-- All variables of a source have numbers below a bound. -/
def Below (bound : Nat) : Source → Prop
  | .evaluate goal env => Goal.Below bound goal ∧ env.Below bound
  | .solve goal => Goal.Below bound goal
  | .iterate query =>
      query.rule.Below bound ∧ Pattern.Over (fun unknown => unknown.id < bound) query.pattern
  | .scan _ _ => True

/-- Opens a stream, unless a pattern or a call does not fit. -/
def opening : Source → State → Option (Cursor × State)
  | .evaluate goal env, state => some (.solving (goal.start env state.database), state)
  | .solve goal, state =>
      match goal.solve state with
      | .error _ => none
      | .ok (search, after) => some (.solving search, after)
  | .iterate query, state =>
      match query.enumerate state with
      | (answers, after) => some (.answering answers, after)
  | .scan relation pattern, state =>
      match state.query relation pattern with
      | .error _ => none
      | .ok (found, after) => some (.matching found, after)

variable {state after : State} {cursor : Cursor}

/-- A goal is solved from nothing once it has been validated. -/
theorem validate_of_opening {goal : Goal}
    (opened : (solve goal).opening state = some (cursor, after)) :
    goal.validate state = .ok after ∧
      cursor = .solving (goal.start .empty after.database) := by
  simp only [opening, Goal.solve] at opened
  cases validated : goal.validate state with
  | error error =>
      rw [validated] at opened
      cases opened
  | ok fixed =>
      rw [validated] at opened
      cases opened
      exact ⟨rfl, rfl⟩

/-- A scan begins with all tuples of its relation. -/
theorem checkArity_of_opening {relation : Relation} {pattern : Pattern}
    (opened : (scan relation pattern).opening state = some (cursor, after)) :
    state.checkArity relation pattern.length = .ok after ∧
      cursor = .matching ⟨relation, pattern, (after.table relation).tuples⟩ := by
  simp only [opening, State.query] at opened
  cases checked : state.checkArity relation pattern.length with
  | error error =>
      rw [checked] at opened
      cases opened
  | ok fixed =>
      rw [checked] at opened
      cases opened
      exact ⟨rfl, rfl⟩

theorem precedes_of_opening {source : Source}
    (opened : source.opening state = some (cursor, after)) : state.Precedes after := by
  cases source with
  | evaluate goal env =>
      cases opened
      exact .refl state
  | solve goal => exact Goal.precedes_of_validate (validate_of_opening opened).1
  | iterate query =>
      simp only [opening, RuleQuery.enumerate, Rule.instantiate_eq] at opened
      cases opened
      exact query.rule.precedes_entered query.pattern state
  | scan relation pattern => exact State.precedes_of_checkArity (checkArity_of_opening opened).1

/-- A stream that can be opened can be opened where fewer arities are fixed. -/
theorem exists_opening_of_within {source : Source} {other : State}
    (within : other.database.AritiesWithin state.database)
    (opened : source.opening state = some (cursor, after)) :
    ∃ otherCursor otherAfter, source.opening other = some (otherCursor, otherAfter) := by
  cases source with
  | evaluate goal env => exact ⟨_, _, rfl⟩
  | solve goal =>
      obtain ⟨validated, success⟩ :=
        Goal.exists_validate_of_within within (validate_of_opening opened).1
      simp only [opening, Goal.solve, success]
      exact ⟨_, _, rfl⟩
  | iterate query => exact ⟨_, _, rfl⟩
  | scan relation pattern =>
      obtain ⟨fixed, success⟩ :=
        State.exists_checkArity_of_within within (checkArity_of_opening opened).1
      simp only [opening, State.query, success]
      exact ⟨_, _, rfl⟩

end Source

namespace Cursor

theorem precedes_pull (fuel : Nat) (cursor : Cursor) (state : State) :
    state.Precedes (cursor.pull fuel state).2.2 := by
  cases cursor with
  | matching found =>
      simp only [pull]
      rcases found.next with ⟨_ | _, rest⟩ <;> exact .refl state
  | solving search => exact search.precedes_pull fuel state
  | answering answers => exact answers.search.precedes_pull fuel state

/-! ## Streams that are alike -/

/-- The two cursors are the same up to the variables that were created since the kept ones.  Scans
do not depend on variables at all.  Solutions must not show any variable that is not kept; answers
to queries show none. -/
inductive Alike (kept : Variable → Prop) (first second : State) : Cursor → Cursor → Prop
  | matching (found : Matches) : Alike kept first second (.matching found) (.matching found)
  | solving {mapping : Renaming} {search renamed : Search}
      (same : renamed = search.rename mapping)
      (isOver : search.Over (mapping.Shared first.nextId second.nextId))
      (exposes : search.Exposes .empty kept)
      (shared : ∀ unknown, kept unknown → mapping.Shared first.nextId second.nextId unknown)
      (fixed : ∀ unknown, kept unknown → mapping unknown = unknown) :
      Alike kept first second (.solving search) (.solving renamed)
  | answering {mapping : Renaming} {pattern : Pattern} {parameters moved : List Variable}
      {search renamed : Search}
      (same : renamed = search.rename mapping)
      (sameParameters : moved = parameters.map mapping)
      (isOver : search.Over (mapping.Shared first.nextId second.nextId))
      (parametersOver : ∀ parameter ∈ parameters,
        mapping.Shared first.nextId second.nextId parameter) :
      Alike kept first second (.answering ⟨pattern, parameters, search⟩)
        (.answering ⟨pattern, moved, renamed⟩)

variable {kept : Variable → Prop} {first second later : State} {cursor other : Cursor}

theorem Alike.mono (alike : Alike kept first second cursor other)
    (order : second.Precedes later) : Alike kept first later cursor other := by
  have grow : ∀ (mapping : Renaming) (unknown : Variable),
      mapping.Shared first.nextId second.nextId unknown →
        mapping.Shared first.nextId later.nextId unknown :=
    fun _ _ shared => ⟨shared.1, Nat.lt_of_lt_of_le shared.2 order.nextId_le⟩
  cases alike with
  | matching found => exact .matching found
  | solving same isOver exposes shared fixed =>
      exact .solving same (isOver.mono (grow _)) exposes
        (fun unknown member => grow _ unknown (shared unknown member)) fixed
  | answering same sameParameters isOver parametersOver =>
      exact .answering same sameParameters (isOver.mono (grow _)) fun parameter member =>
        grow _ parameter (parametersOver parameter member)

/-- A pull on both sides gives the same item. -/
theorem alike_pull (fuel : Nat) (same : first.database.SameFacts second.database)
    (alike : Alike kept first second cursor other) :
    (other.pull fuel second).1 = (cursor.pull fuel first).1 ∧
      Alike kept (cursor.pull fuel first).2.2 (other.pull fuel second).2.2
        (cursor.pull fuel first).2.1 (other.pull fuel second).2.1 := by
  cases alike with
  | matching found =>
      simp only [pull]
      rcases found.next with ⟨_ | _, rest⟩ <;> exact ⟨rfl, .matching rest⟩
  | @solving mapping search renamed sameSearch isOver exposes shared fixed =>
      subst sameSearch
      obtain ⟨extended, growth, outcomes, rests, restOver⟩ :=
        Search.exists_pull_rename fuel same isOver
      obtain ⟨restExposes, answerGrown⟩ := Search.exposes_of_pull fuel exposes first
      have stillFixed : ∀ unknown, kept unknown → extended unknown = unknown :=
        fun unknown member =>
          (growth.agree unknown (shared unknown member)).symm.trans (fixed unknown member)
      simp only [pull]
      refine ⟨?_, .solving rests restOver restExposes
        (fun unknown member => growth.shared unknown (shared unknown member)) stillFixed⟩
      rw [outcomes]
      cases outcome : (search.pull fuel first).1 with
      | found env =>
          have unchanged := Environment.rename_eq_self (answerGrown env outcome).isOver stillFixed
          simp only [Pull.map, unchanged]
      | ended => rfl
      | unfinished => rfl
  | @answering mapping pattern parameters moved search renamed sameSearch sameParameters isOver
      parametersOver =>
      subst sameSearch sameParameters
      obtain ⟨extended, growth, outcomes, rests, restOver⟩ :=
        Search.exists_pull_rename fuel same isOver
      have sameParameters := growth.map_eq parametersOver
      simp only [pull, Answers.pull]
      refine ⟨?_, .answering rests sameParameters restOver fun parameter member =>
        growth.shared parameter (parametersOver parameter member)⟩
      rw [outcomes, sameParameters]
      cases (search.pull fuel first).1 with
      | found env => simp only [Pull.map, Pattern.project_rename]
      | ended => rfl
      | unfinished => rfl

/-! ## Opening -/

/-- The search of a goal, begun in two states that both know its variables. -/
private theorem alike_start {firstHome secondHome : State} {goal : Goal} {env : Environment}
    (same : first.database.SameFacts second.database)
    (firstOrder : firstHome.Precedes first) (secondOrder : secondHome.Precedes second)
    (firstGoal : Goal.Below firstHome.nextId goal) (secondGoal : Goal.Below secondHome.nextId goal)
    (firstEnv : env.Below firstHome.nextId) (secondEnv : env.Below secondHome.nextId) :
    Alike (fun unknown => unknown.id < firstHome.nextId ∧ unknown.id < secondHome.nextId)
      first second (.solving (goal.start env first.database))
      (.solving (goal.start env second.database)) := by
  have sharedKept : ∀ unknown : Variable,
      (unknown.id < firstHome.nextId ∧ unknown.id < secondHome.nextId) →
        Renaming.Shared (.refl _) first.nextId second.nextId unknown :=
    fun unknown member =>
      ⟨Nat.lt_of_lt_of_le member.1 firstOrder.nextId_le,
        Nat.lt_of_lt_of_le member.2 secondOrder.nextId_le⟩
  have isOver := Goal.over_start (Goal.Over.and firstGoal secondGoal) (firstEnv.and secondEnv)
    first.database
  refine .solving ?_ (isOver.mono sharedKept) isOver.exposes sharedKept fun _ _ => rfl
  rw [Search.rename_refl, Goal.start_congr same]

/-- A stream that is opened in two states with the same facts is alike in both, as far as both know
the variables of its source. -/
theorem alike_opening {source : Source} {firstHome secondHome : State}
    (same : firstHome.database.SameFacts secondHome.database)
    (firstBelow : source.Below firstHome.nextId) (secondBelow : source.Below secondHome.nextId)
    (firstOpened : source.opening firstHome = some (cursor, first))
    (secondOpened : source.opening secondHome = some (other, second)) :
    Alike (fun unknown => unknown.id < firstHome.nextId ∧ unknown.id < secondHome.nextId)
      first second cursor other := by
  have firstOrder := Source.precedes_of_opening firstOpened
  have secondOrder := Source.precedes_of_opening secondOpened
  have sameAfter := firstOrder.sameFacts.symm.trans (same.trans secondOrder.sameFacts)
  cases source with
  | evaluate goal env =>
      cases firstOpened
      cases secondOpened
      exact alike_start same firstOrder secondOrder firstBelow.1 secondBelow.1 firstBelow.2
        secondBelow.2
  | solve goal =>
      obtain ⟨_, rfl⟩ := Source.validate_of_opening firstOpened
      obtain ⟨_, rfl⟩ := Source.validate_of_opening secondOpened
      exact alike_start sameAfter firstOrder secondOrder firstBelow secondBelow
        (Environment.over_empty _) (Environment.over_empty _)
  | iterate query =>
      -- Enumerating a query takes the first step of a call.
      have isOver : (Search.call query.rule query.pattern .empty).Over
          (Renaming.Shared (.refl _) firstHome.nextId secondHome.nextId) :=
        ⟨firstBelow.1.and secondBelow.1, firstBelow.2.and secondBelow.2,
          Environment.over_empty _⟩
      have parallel := Search.parallel_call same isOver
      rw [Search.rename_refl, Search.step_call, Search.step_call] at parallel
      simp only [Source.opening, RuleQuery.enumerate, Rule.instantiate_eq]
        at firstOpened secondOpened
      cases firstOpened
      cases secondOpened
      cases parallel with
      | silent growth sameRest restOver =>
          simp only [Search.rename, Search.returning.injEq] at sameRest
          exact .answering sameRest.1 sameRest.2.2.1 restOver.1 restOver.2.2.1
  | scan relation pattern =>
      obtain ⟨_, rfl⟩ := Source.checkArity_of_opening firstOpened
      obtain ⟨_, rfl⟩ := Source.checkArity_of_opening secondOpened
      rw [State.table, State.table, sameAfter relation]
      exact .matching _

end Cursor

end GroundLogic
