import GroundLogic.Proofs.Goal.Reach
import GroundLogic.Proofs.Solutions.Endings
import Mathlib.Data.List.Perm.Basic

/-!
# Conjunction as a join

A conjunction evaluates its right goal again at each solution of the left one, and values that are
known by then go into the scans and the calls.  When both goals end by themselves, the conjunction
might as well have evaluated each of them once: its solutions are the merges of theirs
(`Goal.yields_joins`).  The order of the goals then shows in the order of the solutions only, and
conjunction distributes over disjunction.
-/

namespace GroundLogic

/-! ## Joins -/

namespace Environment

/-- All merges that succeed, of the environments in the first list with those in the second, in the
order of the first list and then of the second. -/
def joins (outer inner : List Environment) : List Environment :=
  outer.flatMap fun first => inner.filterMap first.merge

theorem joins_nil_right (outer : List Environment) : joins outer [] = [] := by
  rw [joins, List.flatMap_eq_nil_iff]
  exact fun _ _ => rfl

theorem joins_cons_left (first : Environment) (others inner : List Environment) :
    joins (first :: others) inner = inner.filterMap first.merge ++ joins others inner :=
  List.flatMap_cons ..

theorem joins_append_right_perm (outer early late : List Environment) :
    (joins outer (early ++ late)).Perm (joins outer early ++ joins outer late) := by
  simp only [joins, List.filterMap_append]
  exact (List.flatMap_append_perm outer _ _).symm

theorem joins_singleton_right (outer : List Environment) (second : Environment) :
    joins outer [second] = outer.filterMap second.merge := by
  rw [List.filterMap_eq_flatMap_toList, joins]
  congr 1
  funext first
  rw [merge_comm, List.filterMap_cons]
  cases second.merge first <;> rfl

/-- Which list is gone through first matters for the order only. -/
theorem joins_perm_comm (first second : List Environment) :
    (joins first second).Perm (joins second first) := by
  induction first with
  | nil =>
      rw [joins_nil_right]
      exact List.Perm.refl []
  | cons head tail inductionHypothesis =>
      have split := joins_append_right_perm second [head] tail
      rw [joins_singleton_right] at split
      rw [joins_cons_left]
      exact (inductionHypothesis.append_left _).trans split.symm

end Environment

/-! ## Lists of solutions -/

namespace Goal

variable {database : Database} {left right : Goal} {env : Environment}
  {early late : List Environment} {bound : Nat}

/-- At a solution of another goal, the solutions are the merges with it. -/
theorem Lists.merged {solution : Environment} (lists : Lists database right env late)
    (extension : solution.Extends env) (rightBelow : Goal.Below bound right)
    (solutionBelow : solution.Below bound) :
    Lists database right solution (late.filterMap solution.merge) := by
  have sameGoal : Goal.rename (.refl _) right = right := rename_refl right
  have sameEnv : env.rename (.refl _) = env := Environment.rename_refl env
  have wide := lists.wider (.refl _) (sameEnv.symm ▸ extension) (sameGoal.symm ▸ rightBelow)
    solutionBelow
  have merges : late.filterMap (fun found => (found.rename (.refl _)).merge solution) =
      late.filterMap solution.merge := by
    apply List.filterMap_congr
    intro found _
    rw [Environment.rename_refl, Environment.merge_comm]
  rw [sameGoal, merges] at wide
  exact wide

/-- The solutions of a conjunction are the merges of the solutions of its goals. -/
theorem Lists.joined (leftLists : Lists database left env early)
    (rightLists : Lists database right env late) (leftBelow : Goal.Below bound left)
    (rightBelow : Goal.Below bound right) (envBelow : env.Below bound) :
    Lists database (.conj left right) env (Environment.joins early late) := by
  have known : ∀ solution ∈ early, solution.Below bound :=
    leftLists.over leftBelow.arguments envBelow
  have branch : ∀ solution ∈ early,
      Lists database right solution (late.filterMap solution.merge) := by
    intro solution member
    exact rightLists.merged (leftLists.extends solution member) rightBelow (known solution member)
  have firsts : (early.map fun solution => (solution, late.filterMap solution.merge)).map Prod.fst =
      early := by
    rw [List.map_map]
    exact List.map_id early
  -- One branch for each solution of the left goal.
  have whole := @Lists.conj database left right env
    (early.map fun solution => (solution, late.filterMap solution.merge))
    (firsts.symm ▸ leftLists) (List.forall_mem_map.2 branch)
  rw [List.flatMap_map] at whole
  exact whole

/-! ## Evaluations -/

/-- When the variables exist already and nothing is stored, an evaluation gives what is listed. -/
theorem yields_later_iff {goal : Goal} {origin state : State} {solutions : List Environment}
    (goalBelow : Goal.Below origin.nextId goal) (envBelow : env.Below origin.nextId)
    (later : origin.Precedes state) :
    goal.Yields env state solutions ↔ Lists origin.database goal env solutions := by
  have goalKnown : Goal.Below state.nextId goal :=
    Goal.Over.mono goalBelow fun _ small => Nat.lt_of_lt_of_le small later.nextId_le
  have envKnown : env.Below state.nextId :=
    envBelow.mono fun _ small => Nat.lt_of_lt_of_le small later.nextId_le
  rw [yields_iff_lists goalKnown envKnown]
  constructor
  · exact fun lists => lists.of_sameFacts later.sameFacts.symm
  · exact fun lists => lists.of_sameFacts later.sameFacts

/-- Conjunction is a join.  If two goals end by themselves, both conjunctions of them end, with all
merges of a solution of the left goal and a solution of the right one that succeed, in the order of
the left and then of the right; so both have the same solutions up to order.  If a third goal ends as
well, the conjunction with a disjunction and the disjunction of the two conjunctions have the same
solutions up to order.  The evaluations may begin in different states, as long as nothing is stored
in between. -/
theorem yields_joins {origin first second state : State}
    (leftBelow : Goal.Below origin.nextId left) (rightBelow : Goal.Below origin.nextId right)
    (envBelow : env.Below origin.nextId) (firstLater : origin.Precedes first)
    (secondLater : origin.Precedes second) (later : origin.Precedes state)
    (leftYields : left.Yields env first early) (rightYields : right.Yields env second late) :
    Yields (.conj left right) env state (Environment.joins early late) ∧
      Yields (.conj right left) env state (Environment.joins late early) ∧
      (Environment.joins early late).Perm (Environment.joins late early) ∧
      ∀ (other : Goal) (third : State) (last : List Environment),
        Goal.Below origin.nextId other → origin.Precedes third → other.Yields env third last →
        Yields (.conj left (.disj right other)) env state
            (Environment.joins early (late ++ last)) ∧
          Yields (.disj (.conj left right) (.conj left other)) env state
            (Environment.joins early late ++ Environment.joins early last) ∧
          (Environment.joins early (late ++ last)).Perm
            (Environment.joins early late ++ Environment.joins early last) := by
  have leftLists := (yields_later_iff leftBelow envBelow firstLater).1 leftYields
  have rightLists := (yields_later_iff rightBelow envBelow secondLater).1 rightYields
  have forward := leftLists.joined rightLists leftBelow rightBelow envBelow
  have backward := rightLists.joined leftLists rightBelow leftBelow envBelow
  have forwardBelow : Goal.Below origin.nextId (.conj left right) := ⟨leftBelow, rightBelow⟩
  have backwardBelow : Goal.Below origin.nextId (.conj right left) := ⟨rightBelow, leftBelow⟩
  refine ⟨(yields_later_iff forwardBelow envBelow later).2 forward,
    (yields_later_iff backwardBelow envBelow later).2 backward,
    Environment.joins_perm_comm early late, fun other third last otherBelow thirdLater yields => ?_⟩
  have otherLists := (yields_later_iff otherBelow envBelow thirdLater).1 yields
  have casesBelow : Goal.Below origin.nextId (.disj right other) := ⟨rightBelow, otherBelow⟩
  have outside := leftLists.joined (.disj rightLists otherLists) leftBelow casesBelow envBelow
  have inside := Lists.disj forward (leftLists.joined otherLists leftBelow otherBelow envBelow)
  have outsideBelow : Goal.Below origin.nextId (.conj left (.disj right other)) :=
    ⟨leftBelow, casesBelow⟩
  have insideBelow : Goal.Below origin.nextId (.disj (.conj left right) (.conj left other)) :=
    ⟨forwardBelow, leftBelow, otherBelow⟩
  exact ⟨(yields_later_iff outsideBelow envBelow later).2 outside,
    (yields_later_iff insideBelow envBelow later).2 inside,
    Environment.joins_append_right_perm early late last⟩

/-- The places that can be reached from `a`, joined with the ends of the stretches from `a` and from
`b`.  The stretches are looked up after the body of the route has been built once more. -/
theorem yields_joins_onward :
    Yields (.conj Routes.onward (.fact Routes.stretch [.value (.symbol "a"), .var ⟨1⟩])) .empty
        Routes.road [Routes.destination (.symbol "b")] ∧
      Yields (.conj (.fact Routes.stretch [.value (.symbol "a"), .var ⟨1⟩]) Routes.onward) .empty
        Routes.road [Routes.destination (.symbol "b")] ∧
      Yields (.conj Routes.onward (.disj (.fact Routes.stretch [.value (.symbol "a"), .var ⟨1⟩])
          (.fact Routes.stretch [.value (.symbol "b"), .var ⟨1⟩]))) .empty
        Routes.road [Routes.destination (.symbol "b"), Routes.destination (.symbol "c")] := by
  have onward : Yields Routes.onward .empty Routes.road
      [Routes.destination (.symbol "b"), Routes.destination (.symbol "c")] :=
    yields_of_take (rfl : ((start Routes.onward .empty Routes.road.database).take 20 3
      Routes.road).1 = ⟨_, .ended⟩)
  have fromFirst : Yields (.fact Routes.stretch [.value (.symbol "a"), .var ⟨1⟩]) .empty
      (Routes.route.opened Routes.road) [Routes.destination (.symbol "b")] :=
    yields_of_take (rfl : ((start _ .empty (Routes.route.opened Routes.road).database).take 1 2
      (Routes.route.opened Routes.road)).1 = ⟨_, .ended⟩)
  have fromSecond : Yields (.fact Routes.stretch [.value (.symbol "b"), .var ⟨1⟩]) .empty
      (Routes.route.opened Routes.road) [Routes.destination (.symbol "c")] :=
    yields_of_take (rfl : ((start _ .empty (Routes.route.opened Routes.road).database).take 1 2
      (Routes.route.opened Routes.road)).1 = ⟨_, .ended⟩)
  have factBelow : ∀ place : Value, Goal.Below Routes.road.nextId
      (.fact Routes.stretch [.value place, .var ⟨1⟩]) :=
    fun place => Pattern.over_of_unknowns (List.forall_mem_singleton.2 (by decide))
  have opened := Rule.precedes_opened Routes.route Routes.road
  obtain ⟨forward, backward, _, spread⟩ := yields_joins Routes.onward_below (factBelow _)
    (Environment.over_empty _) (.refl _) opened (.refl _) onward fromFirst
  exact ⟨forward, backward, (spread _ _ _ (factBelow _) opened fromSecond).1⟩

end Goal

end GroundLogic
