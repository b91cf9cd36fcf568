import GroundLogic.Proofs.Solutions.Rearrangement
import Mathlib.Data.Multiset.MapFold

/-!
# Histories of insertions

A relation keeps its tuples in the order in which they came first, so the order of answers tells
something about the history.  Which answers there are, and how often, does not: after two histories
that leave the same tuples, every evaluation gives the same solutions up to their order
(`Request.histories_agree`).
-/

namespace GroundLogic

/-- Answers come to an end on both sides or on neither, and then they are the same up to order. -/
def SameUpToOrder {Answer : Type} (first second : List Answer → Prop) : Prop :=
  ((∃ answers, first answers) ↔ ∃ answers, second answers) ∧
    ∀ answers others, first answers → second others → answers.Perm others

/-- What ends after one list at most agrees up to order if each side offers a permutation of what
the other ends with. -/
theorem sameUpToOrder_of_exists {Answer : Type} {first second : List Answer → Prop}
    (unique : ∀ answers others, second answers → second others → answers = others)
    (forward : ∀ answers, first answers → ∃ others, others.Perm answers ∧ second others)
    (backward : ∀ answers, second answers → ∃ others, others.Perm answers ∧ first others) :
    SameUpToOrder first second := by
  constructor
  · constructor
    · intro ends
      obtain ⟨answers, given⟩ := ends
      obtain ⟨others, _, givenThere⟩ := forward answers given
      exact ⟨others, givenThere⟩
    · intro ends
      obtain ⟨answers, given⟩ := ends
      obtain ⟨others, _, givenHere⟩ := backward answers given
      exact ⟨others, givenHere⟩
  · intro answers others given givenThere
    obtain ⟨found, reordered, givenFound⟩ := forward answers given
    rw [← unique found others givenFound givenThere]
    exact reordered.symm

/-! ## Evaluations over reordered facts -/

section Reordered

variable {first second : State}
  (facts : ∀ relation, (first.table relation).tuples.Perm (second.table relation).tuples)

include facts

theorem Goal.sameUpToOrder {goal : Goal} {env : Environment}
    (firstBelow : Goal.Below first.nextId goal) (firstKnown : env.Below first.nextId)
    (secondBelow : Goal.Below second.nextId goal) (secondKnown : env.Below second.nextId) :
    SameUpToOrder (goal.Yields env first) (goal.Yields env second) := by
  apply sameUpToOrder_of_exists
  · exact fun answers others given again => Batch.Settle.unique given again
  · intro solutions yields
    exact yields.exists_related Stable.perm (fun relation => (facts relation).symm)
      firstBelow firstKnown secondBelow secondKnown
  · intro solutions yields
    exact yields.exists_related Stable.perm facts secondBelow secondKnown firstBelow firstKnown

theorem RuleQuery.sameUpToOrder {rule : Rule} (pattern : Pattern)
    (firstBelow : rule.Below first.nextId) (secondBelow : rule.Below second.nextId) :
    SameUpToOrder ((RuleQuery.mk rule pattern).Yields first)
      ((RuleQuery.mk rule pattern).Yields second) := by
  apply sameUpToOrder_of_exists
  · exact fun answers others given again => Batch.Settle.unique given again
  · intro answers yields
    exact yields.exists_related Stable.perm (fun relation => (facts relation).symm)
      firstBelow secondBelow
  · intro answers yields
    exact yields.exists_related Stable.perm facts secondBelow firstBelow

end Reordered

/-! ## Queries to relations -/

namespace State

variable {relation : Relation} {first second : State}

/-- A query is refused for its length, or scans the stored tuples. -/
theorem query_eq {Shown : Type} (relation : Relation) (pattern : Pattern) (state : State)
    (view : List Tuple → Shown) :
    (state.query relation pattern).map (fun result => view result.1.toList) =
      match (state.table relation).arity with
      | none => .ok (view ((state.table relation).tuples.filter pattern.admits))
      | some arity =>
          if arity = pattern.length then
            .ok (view ((state.table relation).tuples.filter pattern.admits))
          else .error (.relation relation.name arity pattern.length) := by
  have scanned : ∀ checked, state.checkArity relation pattern.length = .ok checked →
      (checked.table relation).tuples = (state.table relation).tuples :=
    fun checked passed => ((precedes_of_checkArity passed).sameFacts relation).symm
  simp only [query, checkArity] at scanned ⊢
  cases fixed : (state.table relation).arity with
  | none =>
      simp only [fixed] at scanned ⊢
      simp only [Except.map, Matches.toList, scanned _ rfl]
  | some arity =>
      simp only
      by_cases same : arity = pattern.length
      · simp only [if_pos same, Except.map, Matches.toList]
      · simp only [if_neg same, Except.map]

theorem count_eq (relation : Relation) (pattern : Pattern) (state : State) :
    (state.count relation pattern).map Prod.fst =
      (state.query relation pattern).map fun result => result.1.toList.length := by
  simp only [count]
  cases state.query relation pattern <;> rfl

section Reordered

variable (sameArity : (first.table relation).arity = (second.table relation).arity)
  (facts : (first.table relation).tuples.Perm (second.table relation).tuples)

include sameArity facts

/-- The same queries are refused, and the others find the same tuples up to order. -/
theorem query_reordered (pattern : Pattern) :
    (first.query relation pattern).map (fun result => (result.1.toList : Multiset Tuple)) =
      (second.query relation pattern).map fun result => (result.1.toList : Multiset Tuple) := by
  have found := Multiset.coe_eq_coe.2 (facts.filter pattern.admits)
  rw [query_eq relation pattern first Multiset.ofList,
    query_eq relation pattern second Multiset.ofList, sameArity, found]

theorem count_reordered (pattern : Pattern) :
    (first.count relation pattern).map Prod.fst =
      (second.count relation pattern).map Prod.fst := by
  have counted := (facts.filter pattern.admits).length_eq
  rw [count_eq, count_eq, query_eq relation pattern first List.length,
    query_eq relation pattern second List.length, sameArity, counted]

end Reordered

end State

/-! ## Insertions -/

namespace State

variable {before middle after : State}

/-- Every relation has the arity that it had before, or stores a tuple. -/
def OnlyEnters (before after : State) : Prop :=
  ∀ relation, (after.table relation).arity = (before.table relation).arity ∨
    ∃ tuple, tuple ∈ (after.table relation).tuples

theorem OnlyEnters.refl (state : State) : state.OnlyEnters state :=
  fun _ => Or.inl rfl

theorem OnlyEnters.trans (early : before.OnlyEnters middle) (grows : middle.Grows after)
    (late : middle.OnlyEnters after) : before.OnlyEnters after := by
  intro relation
  rcases late relation with same | stored
  · rcases early relation with sameBefore | storedBefore
    · exact Or.inl (same.trans sameBefore)
    · obtain ⟨tuple, member⟩ := storedBefore
      exact Or.inr ⟨tuple, grows.subset relation member⟩
  · exact Or.inr stored

theorem onlyEnters_of_insert {relation : Relation} {tuple : Tuple} {isNew : Bool}
    (inserted : before.insert relation tuple = .ok (isNew, after)) : before.OnlyEnters after := by
  have files := (table_of_insert inserted).2
  intro tested
  by_cases here : relation = tested
  · rw [← here]
    exact Or.inr ⟨tuple, files.mem⟩
  · rw [files.elsewhere tested here]
    exact Or.inl rfl

theorem onlyEnters_insertAll (state : State) (relation : Relation) (tuples : List Tuple) :
    state.OnlyEnters (state.insertAll relation tuples).2 := by
  induction tuples generalizing state with
  | nil => exact .refl state
  | cons tuple rest inductionHypothesis =>
      simp only [insertAll]
      cases inserted : state.insert relation tuple with
      | error error => exact .refl state
      | ok result =>
          have grows := grows_insertAll result.2 relation rest
          have whole := (onlyEnters_of_insert inserted).trans grows (inductionHypothesis result.2)
          rcases others : result.2.insertAll relation rest with ⟨_ | _, final⟩ <;>
            simp only [others] <;> rw [others] at whole <;> exact whole

end State

namespace Request

/-- The request is an insertion. -/
def Enters : Request → Prop
  | .insert _ _ => True
  | .insertAll _ _ => True
  | _ => False

theorem onlyEnters_run {request : Request} (enters : request.Enters) (state : State) :
    state.OnlyEnters (request.run state).2 := by
  cases request with
  | insert relation tuple =>
      simp only [run]
      cases inserted : state.insert relation tuple with
      | error error => exact .refl state
      | ok result => exact State.onlyEnters_of_insert inserted
  | insertAll relation tuples =>
      have whole := state.onlyEnters_insertAll relation tuples
      simp only [run]
      rcases inserted : state.insertAll relation tuples with ⟨_ | _, after⟩ <;>
        rw [inserted] at whole <;> exact whole
  | query => cases enters
  | contains => cases enters
  | count => cases enters
  | validate => cases enters

theorem onlyEnters_runAll {requests : List Request}
    (enters : ∀ request ∈ requests, request.Enters) (state : State) :
    state.OnlyEnters (runAll requests state) := by
  induction requests generalizing state with
  | nil => exact .refl state
  | cons request others inductionHypothesis =>
      have early := onlyEnters_run (enters request (List.mem_cons_self ..)) state
      have late := inductionHypothesis
        (fun later member => enters later (List.mem_cons_of_mem _ member)) (request.run state).2
      exact early.trans (grows_runAll others _) late

/-! ## Two histories -/

section Histories

variable {start other : State} {history retold : List Request}
  (started : State.initial.Grows start) (otherStarted : State.initial.Grows other)
  (sameStart : ∀ relation, start.table relation = other.table relation)
  (enters : ∀ request ∈ history, request.Enters) (reenters : ∀ request ∈ retold, request.Enters)
  (sameFacts : ∀ relation tuple, tuple ∈ ((runAll history start).table relation).tuples ↔
    tuple ∈ ((runAll retold other).table relation).tuples)

include started otherStarted sameFacts

theorem perm_of_histories (relation : Relation) :
    ((runAll history start).table relation).tuples.Perm
      ((runAll retold other).table relation).tuples := by
  have keeps := State.Grows.keeps (started.trans (grows_runAll history start)) relation
  have otherKeeps := State.Grows.keeps (otherStarted.trans (grows_runAll retold other)) relation
  apply (List.perm_ext_iff_of_nodup keeps.distinct otherKeeps.distinct).2
  exact fun tuple => sameFacts relation tuple

include sameStart enters reenters

/-- A relation without tuples has the arity that it had before the insertions; one tuple tells the
arity of any other. -/
theorem arity_of_histories (relation : Relation) :
    ((runAll history start).table relation).arity =
      ((runAll retold other).table relation).arity := by
  have keeps := State.Grows.keeps (started.trans (grows_runAll history start)) relation
  have otherKeeps := State.Grows.keeps (otherStarted.trans (grows_runAll retold other)) relation
  -- A tuple that is stored on one side is stored on both, and all tuples have the arity.
  have told : ∀ tuple, tuple ∈ ((runAll history start).table relation).tuples →
      ((runAll history start).table relation).arity =
        ((runAll retold other).table relation).arity := by
    intro tuple stored
    have storedThere := (sameFacts relation tuple).1 stored
    rw [keeps.sized tuple stored, otherKeeps.sized tuple storedThere]
  rcases onlyEnters_runAll enters start relation with same | stored
  · rcases onlyEnters_runAll reenters other relation with sameThere | storedThere
    · rw [same, sameThere, sameStart relation]
    · obtain ⟨tuple, member⟩ := storedThere
      exact told tuple ((sameFacts relation tuple).2 member)
  · obtain ⟨tuple, member⟩ := stored
    exact told tuple member

/-- Two histories of insertions that leave the same tuples cannot be told apart, except by the order
of answers: whatever variables and rules are created afterwards, each evaluation ends after both or
after neither, and gives the same solutions, equally often; the same queries to a relation are
refused, and the others find as many tuples, and the same. -/
theorem histories_agree :
    (∀ first second : State, (runAll history start).Precedes first →
      (runAll retold other).Precedes second →
        (∀ (goal : Goal) (env : Environment), Goal.Below first.nextId goal →
          env.Below first.nextId → Goal.Below second.nextId goal → env.Below second.nextId →
            SameUpToOrder (goal.Yields env first) (goal.Yields env second)) ∧
        ∀ (rule : Rule) (pattern : Pattern), rule.Below first.nextId →
          rule.Below second.nextId →
            SameUpToOrder ((RuleQuery.mk rule pattern).Yields first)
              ((RuleQuery.mk rule pattern).Yields second)) ∧
    ∀ (relation : Relation) (pattern : Pattern),
      ((runAll history start).query relation pattern).map
          (fun result => (result.1.toList : Multiset Tuple)) =
        ((runAll retold other).query relation pattern).map
          (fun result => (result.1.toList : Multiset Tuple)) ∧
      ((runAll history start).count relation pattern).map Prod.fst =
        ((runAll retold other).count relation pattern).map Prod.fst := by
  have reordered := perm_of_histories started otherStarted sameFacts
  have arities := arity_of_histories started otherStarted sameStart enters reenters sameFacts
  constructor
  · intro first second order orderThere
    have facts : ∀ relation,
        (first.table relation).tuples.Perm (second.table relation).tuples := by
      intro relation
      have here := order.sameFacts relation
      have there := orderThere.sameFacts relation
      have between := reordered relation
      simp only [State.table] at between ⊢
      rw [← here, ← there]
      exact between
    constructor
    · intro goal env firstBelow firstKnown secondBelow secondKnown
      exact Goal.sameUpToOrder facts firstBelow firstKnown secondBelow secondKnown
    · intro rule pattern firstBelow secondBelow
      exact RuleQuery.sameUpToOrder facts pattern firstBelow secondBelow
  · intro relation pattern
    have sameArity := arities relation
    have facts := reordered relation
    exact ⟨State.query_reordered sameArity facts pattern,
      State.count_reordered sameArity facts pattern⟩

end Histories

end Request

namespace Routes

/-- The stretches from a fork, one of them twice. -/
def forkTold : List Request :=
  [.insert stretch [.symbol "a", .symbol "b"],
    .insert stretch [.symbol "a", .symbol "c"],
    .insert stretch [.symbol "a", .symbol "b"]]

/-- The same stretches, the other way round and in one request. -/
def forkRetold : List Request :=
  [.insertAll stretch [[.symbol "a", .symbol "c"], [.symbol "a", .symbol "c"],
    [.symbol "a", .symbol "b"]]]

/-- One variable, and nothing stored. -/
def unpaved : State :=
  (State.initial.declare (.named "Destination" none)).2

def fork : State :=
  Request.runAll forkTold unpaved

def forkAgain : State :=
  Request.runAll forkRetold unpaved

end Routes

/-- The place that is named first is found first; the places are the same. -/
theorem Request.histories_agree_fork :
    SameUpToOrder (Routes.onward.Yields .empty Routes.fork)
        (Routes.onward.Yields .empty Routes.forkAgain) ∧
    Routes.onward.Yields .empty Routes.fork
      [Routes.destination (.symbol "b"), Routes.destination (.symbol "c")] ∧
    Routes.onward.Yields .empty Routes.forkAgain
      [Routes.destination (.symbol "c"), Routes.destination (.symbol "b")] ∧
    (Routes.fork.count Routes.stretch [.wildcard, .wildcard]).map Prod.fst =
      (Routes.forkAgain.count Routes.stretch [.wildcard, .wildcard]).map Prod.fst := by
  have started : State.initial.Grows Routes.unpaved := .single (.declared _ _)
  have enters : ∀ request ∈ Routes.forkTold, request.Enters := by
    intro request member
    simp only [Routes.forkTold, List.mem_cons, List.not_mem_nil, or_false] at member
    rcases member with same | same | same <;> rw [same] <;> trivial
  have reenters : ∀ request ∈ Routes.forkRetold, request.Enters := by
    intro request member
    rw [List.mem_singleton.1 member]
    trivial
  have sameFacts : ∀ relation tuple,
      tuple ∈ (Routes.fork.table relation).tuples ↔
        tuple ∈ (Routes.forkAgain.table relation).tuples := by
    intro relation tuple
    have told : Routes.fork.table relation =
        if Routes.stretch = relation then
          ⟨some 2, [[.symbol "a", .symbol "b"], [.symbol "a", .symbol "c"]]⟩
        else .empty := rfl
    have retold : Routes.forkAgain.table relation =
        if Routes.stretch = relation then
          ⟨some 2, [[.symbol "a", .symbol "c"], [.symbol "a", .symbol "b"]]⟩
        else .empty := rfl
    rw [told, retold]
    by_cases here : Routes.stretch = relation
    · simp only [if_pos here, List.mem_cons, List.not_mem_nil, or_false]
      exact Or.comm
    · simp only [if_neg here]
  obtain ⟨evaluations, counts⟩ := Request.histories_agree started started (fun _ => rfl) enters
    reenters sameFacts
  have goals := (evaluations _ _ (.refl _) (.refl _)).1
  refine ⟨goals Routes.onward .empty Routes.onward_below (Environment.over_empty _)
    Routes.onward_below (Environment.over_empty _), ?_, ?_,
    (counts Routes.stretch [.wildcard, .wildcard]).2⟩
  · exact Goal.yields_of_take
      (rfl : ((Goal.start Routes.onward .empty Routes.fork.database).take 40 4 Routes.fork).1 =
        ⟨_, .ended⟩)
  · exact Goal.yields_of_take
      (rfl : ((Goal.start Routes.onward .empty Routes.forkAgain.database).take 40 4
        Routes.forkAgain).1 = ⟨_, .ended⟩)

end GroundLogic
