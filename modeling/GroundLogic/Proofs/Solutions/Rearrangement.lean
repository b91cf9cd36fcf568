import GroundLogic.Proofs.Solutions.Endings
import GroundLogic.Proofs.State.Requests
import Mathlib.Data.List.Perm.Basic

/-!
# Evaluation over fewer facts

What is listed for a goal is put together from the stored tuples by choosing, by converting items
and by laying lists one after the other.  A relation between lists that survives these operations
(`Stable`) is therefore handed on from the tables of two databases to the solutions of every goal.
The relation of being a subsequence is one: with fewer facts the same solutions are found in the
same order, apart from those that are missing (`State.yields_of_fewer`).  To be a permutation is
another.
-/

namespace GroundLogic

/-- The relation survives what an evaluation does to the tables. -/
structure Stable (related : {Item : Type} → List Item → List Item → Prop) : Prop where
  append : ∀ {Item : Type} {first second third fourth : List Item},
    related first second → related third fourth → related (first ++ third) (second ++ fourth)
  flatMap : ∀ {Item Other : Type} {chosen items : List Item} {left right : Item → List Other},
    related chosen items → (∀ item ∈ items, related (left item) (right item)) →
      related (chosen.flatMap left) (items.flatMap right)
  filterMap : ∀ {Item Other : Type} {chosen items : List Item} (convert : Item → Option Other),
    related chosen items → related (chosen.filterMap convert) (items.filterMap convert)
  /-- What is related to converted items comes from related items. -/
  preimage : ∀ {Item Other : Type} {items : List Item} {found : List Other}
    {convert : Item → Other}, related found (items.map convert) →
      ∃ chosen, related chosen items ∧ chosen.map convert = found
  subset : ∀ {Item : Type} {chosen items : List Item}, related chosen items → chosen ⊆ items

namespace Stable

theorem sublist_flatMap {Item Other : Type} {chosen items : List Item}
    {left right : Item → List Other} (related : chosen.Sublist items)
    (each : ∀ item ∈ items, (left item).Sublist (right item)) :
    (chosen.flatMap left).Sublist (items.flatMap right) := by
  induction related with
  | slnil => exact .slnil
  | cons item _ inductionHypothesis =>
      rw [List.flatMap_cons]
      apply List.sublist_append_of_sublist_right
      exact inductionHypothesis fun later member => each later (List.mem_cons_of_mem _ member)
  | cons_cons item _ inductionHypothesis =>
      rw [List.flatMap_cons, List.flatMap_cons]
      apply (each item (List.mem_cons_self ..)).append
      exact inductionHypothesis fun later member => each later (List.mem_cons_of_mem _ member)

theorem sublist : Stable List.Sublist where
  append := List.Sublist.append
  flatMap := sublist_flatMap
  filterMap convert related := related.filterMap convert
  preimage related := by
    obtain ⟨chosen, part, same⟩ := List.sublist_map_iff.1 related
    exact ⟨chosen, part, same.symm⟩
  subset related := related.subset

theorem perm : Stable List.Perm where
  append := List.Perm.append
  flatMap {_ _ chosen items left right} related each := by
    apply related.flatMap
    exact fun item member => each item (related.subset member)
  filterMap convert related := related.filterMap convert
  preimage {_ _ items found convert} related := by
    have split : Relation.Comp (· = List.map convert ·) List.Perm found items := by
      rw [List.eq_map_comp_perm]
      exact related
    obtain ⟨chosen, same, reordered⟩ := split
    exact ⟨chosen, reordered, same.symm⟩
  subset related := related.subset

variable {related : {Item : Type} → List Item → List Item → Prop}

theorem map (stable : Stable related) {Item Other : Type} {chosen items : List Item}
    (convert : Item → Other) (relation : related chosen items) :
    related (chosen.map convert) (items.map convert) := by
  have converted := stable.filterMap (fun item => some (convert item)) relation
  simp only [List.filterMap_eq_map'] at converted
  exact converted

/-- Where the heads of branches are related to other heads and each tail to some tail that is
allowed at its head, the other heads have branches of their own. -/
theorem exists_branches (stable : Stable related) {Head Item : Type} {heads : List Head}
    {branches : List (Head × List Item)} {allowed : Head → List Item → Prop}
    (headsRelated : related heads (branches.map Prod.fst))
    (tails : ∀ branch ∈ branches, ∃ tail, related tail branch.2 ∧ allowed branch.1 tail) :
    ∃ chosen : List (Head × List Item), chosen.map Prod.fst = heads ∧
      (∀ branch ∈ chosen, allowed branch.1 branch.2) ∧
      related (chosen.flatMap Prod.snd) (branches.flatMap Prod.snd) := by
  obtain ⟨sources, sourcesRelated, sameHeads⟩ := stable.preimage headsRelated
  -- The choice of tails has to be a function of all branches, so others get an empty one.
  have total : ∀ branch, ∃ tail, branch ∈ branches →
      related tail branch.2 ∧ allowed branch.1 tail := by
    intro branch
    by_cases member : branch ∈ branches
    · obtain ⟨tail, listed⟩ := tails branch member
      exact ⟨tail, fun _ => listed⟩
    · exact ⟨[], fun absurdity => absurd absurdity member⟩
  choose tail listed using total
  refine ⟨sources.map fun branch => (branch.1, tail branch), ?_, ?_, ?_⟩
  · rw [List.map_map]
    exact sameHeads
  · intro branch member
    obtain ⟨source, sourceMember, same⟩ := List.mem_map.1 member
    rw [← same]
    exact (listed source (stable.subset sourcesRelated sourceMember)).2
  · rw [List.flatMap_map]
    apply stable.flatMap sourcesRelated
    exact fun branch member => (listed branch member).1

end Stable

/-! ## From tables to solutions -/

variable {related : {Item : Type} → List Item → List Item → Prop}

section Evaluations

variable {first second : State} (stable : Stable related)
  (facts : ∀ relation, related (second.table relation).tuples (first.table relation).tuples)

include stable facts

/-- Solutions over the one database come from solutions over the other.  A body may stay where it
was built, since only facts are different. -/
theorem Goal.Lists.exists_related {goal : Goal} {env : Environment} {answers : List Environment}
    (lists : Lists first.database goal env answers) :
    ∃ found, related found answers ∧ Lists second.database goal env found := by
  induction lists with
  | @fact relation pattern env =>
      exact ⟨_, stable.filterMap _ (facts relation), .fact⟩
  | conj _ _ leftHypothesis rightHypothesis =>
      obtain ⟨heads, headsRelated, leftLists⟩ := leftHypothesis
      obtain ⟨chosen, sameHeads, each, relation⟩ :=
        stable.exists_branches headsRelated rightHypothesis
      rw [← sameHeads] at leftLists
      exact ⟨_, relation, .conj leftLists each⟩
  | disj _ _ leftHypothesis rightHypothesis =>
      obtain ⟨early, earlyRelated, leftLists⟩ := leftHypothesis
      obtain ⟨late, lateRelated, rightLists⟩ := rightHypothesis
      exact ⟨early ++ late, stable.append earlyRelated lateRelated, .disj leftLists rightLists⟩
  | call fresh _ bodyHypothesis =>
      obtain ⟨inside, insideRelated, bodyLists⟩ := bodyHypothesis
      exact ⟨_, stable.filterMap _ insideRelated, .call fresh bodyLists⟩

theorem Goal.Yields.exists_related {goal : Goal} {env : Environment}
    {solutions : List Environment} (firstBelow : Goal.Below first.nextId goal)
    (firstKnown : env.Below first.nextId) (secondBelow : Goal.Below second.nextId goal)
    (secondKnown : env.Below second.nextId) (yields : goal.Yields env first solutions) :
    ∃ found, related found solutions ∧ goal.Yields env second found := by
  have lists := (Goal.yields_iff_lists firstBelow firstKnown).1 yields
  obtain ⟨found, relation, otherLists⟩ := lists.exists_related stable facts
  exact ⟨found, relation, (Goal.yields_iff_lists secondBelow secondKnown).2 otherLists⟩

/-- Over the other database the body is built elsewhere, and shows the same. -/
theorem RuleQuery.Yields.exists_related {rule : Rule} {pattern : Pattern}
    {answers : List Pattern} (firstBelow : rule.Below first.nextId)
    (secondBelow : rule.Below second.nextId)
    (yields : (RuleQuery.mk rule pattern).Yields first answers) :
    ∃ found, related found answers ∧ (RuleQuery.mk rule pattern).Yields second found := by
  obtain ⟨inside, lists, shown⟩ := (RuleQuery.yields_iff_lists firstBelow).1 yields
  obtain ⟨kept, relation, otherLists⟩ := lists.exists_related stable facts
  obtain ⟨moved, movedLists, sameAnswers⟩ :=
    Rule.exists_lists_elsewhere otherLists firstBelow secondBelow
  have converted := stable.map
    (fun solution => Pattern.project solution pattern (rule.parameters first.nextId)) relation
  rw [shown, ← sameAnswers] at converted
  exact ⟨_, converted, (RuleQuery.yields_iff_lists secondBelow).2 ⟨moved, movedLists, rfl⟩⟩

end Evaluations

/-! ## Fewer facts -/

/-- Facts that are added never remove answers and never change their order.  If the stored tuples of
one state are, in their order, among those of another, every evaluation that ends over the larger
state ends over the smaller one, and gives the solutions of the other apart from some that are
missing.  The same is true of the answers to a query; so what holds over the smaller state holds
over the larger one, if the answers there come to an end. -/
theorem State.yields_of_fewer {smaller larger : State}
    (fewer : ∀ relation,
      (smaller.table relation).tuples.Sublist (larger.table relation).tuples) :
    (∀ (goal : Goal) (env : Environment) (solutions : List Environment),
      Goal.Below smaller.nextId goal → env.Below smaller.nextId →
      Goal.Below larger.nextId goal → env.Below larger.nextId →
        goal.Yields env larger solutions →
          ∃ kept, kept.Sublist solutions ∧ goal.Yields env smaller kept) ∧
    ∀ (rule : Rule) (pattern : Pattern) (answers : List Pattern),
      rule.Below smaller.nextId → rule.Below larger.nextId →
        (RuleQuery.mk rule pattern).Yields larger answers →
          (∃ kept, kept.Sublist answers ∧ (RuleQuery.mk rule pattern).Yields smaller kept) ∧
          (rule.Decides pattern smaller true → rule.Decides pattern larger true) := by
  constructor
  · intro goal env solutions smallerBelow smallerKnown largerBelow largerKnown yields
    exact yields.exists_related Stable.sublist fewer largerBelow largerKnown smallerBelow
      smallerKnown
  · intro rule pattern answers smallerBelow largerBelow yields
    have kept := yields.exists_related Stable.sublist fewer largerBelow smallerBelow
    refine ⟨kept, fun holds => ?_⟩
    obtain ⟨found, part, smallerYields⟩ := kept
    have sameLength := holds.length_eq
    have nonempty := holds.unique (Rule.decides_of_yields smallerBelow sameLength smallerYields)
    have decided := Rule.decides_of_yields largerBelow sameLength yields
    cases answers with
    | nil =>
        rw [List.sublist_nil.1 part] at nonempty
        cases nonempty
    | cons answer others => exact decided

namespace Routes

/-- The road once one more stretch has been entered. -/
def prolonged : State :=
  Request.runAll [.insert stretch [.symbol "c", .symbol "d"]] road

/-- All routes that start at `a`. -/
def fromA : Pattern :=
  [.value (.symbol "a"), .wildcard]

end Routes

/-- A longer road leads to more places. -/
theorem State.yields_of_fewer_prolonged :
    (∃ kept, kept.Sublist [Routes.destination (.symbol "b"), Routes.destination (.symbol "c"),
        Routes.destination (.symbol "d")] ∧
      Routes.onward.Yields .empty Routes.road kept) ∧
    (∃ kept, kept.Sublist [[.value (.symbol "a"), .value (.symbol "b")],
        [.value (.symbol "a"), .value (.symbol "c")],
        [.value (.symbol "a"), .value (.symbol "d")]] ∧
      (RuleQuery.mk Routes.route Routes.fromA).Yields Routes.road kept) ∧
    Routes.route.Decides Routes.fromA Routes.prolonged true := by
  have fewer := (Request.grows_runAll [.insert Routes.stretch [.symbol "c", .symbol "d"]]
    Routes.road).sublist
  have reached : Routes.onward.Yields .empty Routes.prolonged [Routes.destination (.symbol "b"),
      Routes.destination (.symbol "c"), Routes.destination (.symbol "d")] :=
    Goal.yields_of_take
      (rfl : ((Goal.start Routes.onward .empty Routes.prolonged.database).take 40 4
        Routes.prolonged).1 = ⟨_, .ended⟩)
  have answered : (RuleQuery.mk Routes.route Routes.fromA).Yields Routes.prolonged
      [[.value (.symbol "a"), .value (.symbol "b")], [.value (.symbol "a"), .value (.symbol "c")],
        [.value (.symbol "a"), .value (.symbol "d")]] :=
    RuleQuery.yields_of_take (Routes.route_below _)
      (rfl : (((RuleQuery.mk Routes.route Routes.fromA).enumerate Routes.prolonged).1.take 40 4
        ((RuleQuery.mk Routes.route Routes.fromA).enumerate Routes.prolonged).2).1 = ⟨_, .ended⟩)
  have holds : Routes.route.Decides Routes.fromA Routes.road true :=
    Rule.decides_of_succeeds
      (rfl : (Routes.route.succeeds 40 Routes.fromA Routes.road).map Prod.fst = .ok (some true))
  obtain ⟨goals, queries⟩ := State.yields_of_fewer fewer
  have kept := goals Routes.onward .empty _ Routes.onward_below (Environment.over_empty _)
    Routes.onward_below (Environment.over_empty _) reached
  obtain ⟨shown, still⟩ := queries Routes.route Routes.fromA _ (Routes.route_below _)
    (Routes.route_below _) answered
  exact ⟨kept, shown, still holds⟩

end GroundLogic
