import GroundLogic.Proofs.Goal.Reach
import GroundLogic.Proofs.Solutions.Substitution

/-!
# Narrowing

Known bindings are pushed into the scans of facts and into the parameters of called rules.  This
changes nothing but the amount of work: what is found with more bindings is what is found with
fewer, each solution merged with the additional bindings and dropped if it disagrees with them
(`take_wider`).  It is the substitution of every variable by itself.
-/

namespace GroundLogic

namespace Goal

variable {database : Database} {goal : Goal} {env wider : Environment}
  {answers : List Environment}

/-- The search from a wider environment ends whenever the other one does, in every state and up to
renaming. -/
theorem Lists.ends_wider (lists : Lists database goal env answers) (mapping : Renaming)
    (extension : wider.Extends (env.rename mapping)) :
    Search.Ends database (start (Goal.rename mapping goal) wider database)
      ((answers.map (Environment.rename mapping)).filterMap
        fun solution => solution.merge wider) := by
  have ends := lists.ends_substitute (.ofRenaming mapping) mapping
    (Substitution.fits_ofRenaming.2 extension)
  simp only [substitute_ofRenaming, Substitution.carry_ofRenaming] at ends
  rw [List.filterMap_map]
  exact ends

/-- If the search from an environment ends, so does the search from a wider one, in any state with
the same facts, and its solutions are those of the first merged with the wider environment, in
order, without those that disagree with it. -/
theorem take_wider {state other : State} {fuel wanted : Nat} {solutions : List Environment}
    {rest : Search} {final : State}
    (same : other.database.SameFacts state.database)
    (goalBelow : Goal.Below state.nextId goal) (envBelow : env.Below state.nextId)
    (goalKnown : Goal.Below other.nextId goal) (widerKnown : wider.Below other.nextId)
    (extension : wider.Extends env)
    (taken : (start goal env state.database).take fuel wanted state =
      (⟨solutions, .ended⟩, rest, final)) :
    ∃ enough, ∀ allowed, enough ≤ allowed → ∀ number,
      (solutions.filterMap fun solution => solution.merge wider).length < number →
        ((start goal wider other.database).take allowed number other).1 =
          ⟨solutions.filterMap fun solution => solution.merge wider, .ended⟩ := by
  have lists := (underway_of_take goalBelow envBelow taken).2 rfl
  have wide : wider.Extends (env.rename (.refl _)) := by
    rw [Environment.rename_refl]
    exact extension
  have ends := lists.ends_wider (.refl _) wide
  have unchanged : solutions.map (Environment.rename (.refl _)) = solutions := by
    rw [List.map_congr_left fun solution _ => Environment.rename_refl solution, List.map_id']
  rw [Goal.rename_refl, unchanged] at ends
  obtain ⟨trace, last, later, steps, exhausted, answers⟩ :=
    ends.exists_steps ⟨same, over_start goalKnown widerKnown _⟩
  obtain ⟨enough, pulled⟩ := Search.exists_take steps exhausted
  refine ⟨enough, fun allowed bound number more => ?_⟩
  rw [← answers, List.length_map] at more
  rw [start_congr same, pulled allowed bound number more, answers]

/-- Of the two places that can be reached from `a`, one is left when the destination is known. -/
theorem take_wider_onward :
    ∃ enough, ∀ allowed, enough ≤ allowed → ∀ number, 1 < number →
      ((start Routes.onward (Routes.destination (.symbol "c")) Routes.road.database).take
        allowed number Routes.road).1 = ⟨[Routes.destination (.symbol "c")], .ended⟩ := by
  have destinationBelow :
      (Routes.destination (.symbol "c")).Below Routes.road.nextId := by
    intro unknown value found
    cases List.mem_singleton.1 (Environment.get?_eq_some_iff.1 found)
    decide
  exact take_wider (.refl _) Routes.onward_below (Environment.over_empty _) Routes.onward_below
    destinationBelow (Environment.extends_empty _)
    (rfl : (start Routes.onward .empty Routes.road.database).take 20 3 Routes.road =
      (⟨[Routes.destination (.symbol "b"), Routes.destination (.symbol "c")], .ended⟩, _, _))

end Goal

end GroundLogic
