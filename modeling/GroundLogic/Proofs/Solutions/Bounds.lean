import GroundLogic.Goal.Weight
import GroundLogic.Proofs.Rule.Alike
import GroundLogic.Proofs.Solutions.Batches

/-!
# Programs without recursion

Rules that call only rules defined before them cannot go on for ever.  By induction on the order of
definition the solutions of every goal can be listed (`exists_lists`), so every search ends; and the
list is no longer than the goal weighs (`take_bounded`).
-/

namespace GroundLogic

namespace Goal

variable {database : Database} {goal other left right : Goal} {order : Rule → Nat} {depth : Nat}

/-! ## Weights -/

/-- Alike goals weigh the same. -/
theorem Alike.weight_eq (alike : goal.Alike other) (database : Database) (depth : Nat) :
    weight database depth goal = weight database depth other := by
  have level : ∀ weigh : Rule → Nat,
      (∀ rule called : Rule, rule.Alike called → weigh rule = weigh called) →
        ∀ {first second : Goal}, first.Alike second →
          weightWith weigh database first = weightWith weigh database second := by
    intro weigh rules first second pair
    induction pair with
    | fact _ => rfl
    | conj _ _ firstHypothesis secondHypothesis =>
        simp only [weightWith, firstHypothesis, secondHypothesis]
    | disj _ _ firstHypothesis secondHypothesis =>
        simp only [weightWith, firstHypothesis, secondHypothesis]
    | call called _ => exact rules _ _ called
  induction depth generalizing goal other with
  | zero => exact level _ (fun _ _ _ => rfl) alike
  | succ depth inductionHypothesis =>
      exact level _ (fun _ _ called => inductionHypothesis (called.body 0 0)) alike

theorem weight_conj (database : Database) (depth : Nat) (left right : Goal) :
    weight database depth (.conj left right) =
      weight database depth left * weight database depth right := by
  cases depth <;> rfl

theorem weight_disj (database : Database) (depth : Nat) (left right : Goal) :
    weight database depth (.disj left right) =
      weight database depth left + weight database depth right := by
  cases depth <;> rfl

theorem weight_fact (database : Database) (depth : Nat) (relation : Relation)
    (pattern : Pattern) :
    weight database depth (.fact relation pattern) = (database.table relation).tuples.length := by
  cases depth <;> rfl

/-- A call weighs what the body of its rule does, wherever that is built. -/
theorem weight_call (database : Database) (depth : Nat) (rule : Rule) (arguments : Pattern)
    (base : Nat) :
    weight database (depth + 1) (.call rule arguments) =
      weight database depth (rule.body base) :=
  ((Rule.Alike.refl rule).body 0 base).weight_eq database depth

/-! ## The order of definition -/

/-- Every rule that is reached calls only rules that come before it. -/
def Layered (order : Rule → Nat) (goal : Goal) : Prop :=
  ∀ rule, goal.Reaches rule → ∀ base, rule.Below base →
    ∀ called ∈ Formula.callees (rule.body base), order called < order rule

/-- Calls are at most this deep. -/
inductive Shallow : Nat → Goal → Prop
  | fact {depth : Nat} {relation : Relation} {pattern : Pattern} :
      Shallow depth (.fact relation pattern)
  | conj {depth : Nat} {left right : Goal} (first : Shallow depth left)
      (second : Shallow depth right) : Shallow depth (.conj left right)
  | disj {depth : Nat} {left right : Goal} (first : Shallow depth left)
      (second : Shallow depth right) : Shallow depth (.disj left right)
  | call {depth : Nat} {rule : Rule} {arguments : Pattern}
      (bodies : ∀ base, rule.Below base → Shallow depth (rule.body base)) :
      Shallow (depth + 1) (.call rule arguments)

theorem Layered.of_callees (layered : Layered order other)
    (callees : ∀ called ∈ Formula.callees goal, other.Reaches called) : Layered order goal :=
  fun rule reaches => layered rule (reaches.mono callees)

/-- Calls go no deeper than there are rules before the ones that the goal calls. -/
theorem Layered.shallow (layered : Layered order goal)
    (deep : ∀ called ∈ Formula.callees goal, order called < depth) : Shallow depth goal := by
  induction depth using Nat.strongRecOn generalizing goal with
  | ind depth depthHypothesis =>
      induction goal with
      | fact relation pattern => exact .fact
      | conj left right leftHypothesis rightHypothesis =>
          refine .conj (leftHypothesis ?_ ?_) (rightHypothesis ?_ ?_)
          · exact layered.of_callees fun _ member => .callee (List.mem_append_left _ member)
          · exact fun called member => deep called (List.mem_append_left _ member)
          · exact layered.of_callees fun _ member => .callee (List.mem_append_right _ member)
          · exact fun called member => deep called (List.mem_append_right _ member)
      | disj left right leftHypothesis rightHypothesis =>
          refine .disj (leftHypothesis ?_ ?_) (rightHypothesis ?_ ?_)
          · exact layered.of_callees fun _ member => .callee (List.mem_append_left _ member)
          · exact fun called member => deep called (List.mem_append_left _ member)
          · exact layered.of_callees fun _ member => .callee (List.mem_append_right _ member)
          · exact fun called member => deep called (List.mem_append_right _ member)
      | call rule arguments =>
          have isCalled : Reaches (.call rule arguments) rule := .callee (List.mem_cons_self ..)
          have here := deep rule (List.mem_cons_self ..)
          obtain ⟨earlier, rfl⟩ := Nat.exists_eq_add_one_of_ne_zero (Nat.ne_zero_of_lt here)
          refine .call fun base fresh => ?_
          refine depthHypothesis earlier (Nat.lt_succ_self _) ?_ fun called member => ?_
          · exact layered.of_callees fun _ member => .body isCalled fresh member
          · exact Nat.lt_of_lt_of_le (layered rule isCalled base fresh called member)
              (Nat.le_of_lt_succ here)

theorem Shallow.weighs (shallow : Shallow depth goal) (database : Database) :
    Weighs database goal (weight database depth goal) := by
  induction shallow with
  | fact =>
      rw [weight_fact]
      exact .fact
  | conj _ _ firstHypothesis secondHypothesis =>
      rw [weight_conj]
      exact .conj firstHypothesis secondHypothesis
  | disj _ _ firstHypothesis secondHypothesis =>
      rw [weight_disj]
      exact .disj firstHypothesis secondHypothesis
  | call _ bodiesHypothesis =>
      refine .call fun base fresh => ?_
      rw [weight_call database _ _ _ base]
      exact bodiesHypothesis base fresh

/-- A goal has no two weights. -/
theorem Weighs.unique {first second : Nat} (weighs : Weighs database goal first)
    (other : Weighs database goal second) : first = second := by
  induction weighs generalizing second with
  | fact =>
      cases other
      rfl
  | conj _ _ earlyHypothesis lateHypothesis =>
      cases other with
      | conj early late => rw [earlyHypothesis early, lateHypothesis late]
  | disj _ _ earlyHypothesis lateHypothesis =>
      cases other with
      | disj early late => rw [earlyHypothesis early, lateHypothesis late]
  | @call rule _ _ _ bodiesHypothesis =>
      cases other with
      | call bodies =>
          obtain ⟨base, fresh⟩ := rule.exists_below
          exact bodiesHypothesis base fresh (bodies base fresh)

/-! ## Listings -/

private theorem length_flatMap_le {branches : List (Environment × List Environment)} {bound : Nat}
    (each : ∀ branch ∈ branches, branch.2.length ≤ bound) :
    (branches.flatMap Prod.snd).length ≤ branches.length * bound := by
  induction branches with
  | nil => exact Nat.zero_le _
  | cons branch others inductionHypothesis =>
      rw [List.flatMap_cons, List.length_append, List.length_cons, Nat.succ_mul, Nat.add_comm]
      exact Nat.add_le_add
        (inductionHypothesis fun other member => each other (List.mem_cons_of_mem _ member))
        (each branch (List.mem_cons_self ..))

/-- The solutions can be listed, and the list is no longer than the goal weighs. -/
theorem Shallow.exists_lists (shallow : Shallow depth goal) (database : Database)
    (env : Environment) :
    ∃ answers, Lists database goal env answers ∧
      answers.length ≤ weight database depth goal := by
  induction shallow generalizing env with
  | fact =>
      refine ⟨_, .fact, ?_⟩
      rw [weight_fact]
      exact List.length_filterMap_le ..
  | @conj depth left right _ _ firstHypothesis secondHypothesis =>
      obtain ⟨found, first, bounded⟩ := firstHypothesis env
      choose later listed short using secondHypothesis
      have heads : (found.map fun middle => (middle, later middle)).map Prod.fst = found := by
        rw [List.map_map]
        exact List.map_id' found
      have each : ∀ branch ∈ found.map (fun middle => (middle, later middle)),
          Lists database right branch.1 branch.2 ∧
            branch.2.length ≤ weight database depth right := by
        intro branch member
        obtain ⟨middle, _, rfl⟩ := List.mem_map.1 member
        exact ⟨listed middle, short middle⟩
      rw [← heads] at first
      refine ⟨_, .conj first fun branch member => (each branch member).1, ?_⟩
      rw [weight_conj]
      refine Nat.le_trans (length_flatMap_le fun branch member => (each branch member).2) ?_
      rw [List.length_map]
      exact Nat.mul_le_mul_right _ bounded
  | disj _ _ firstHypothesis secondHypothesis =>
      obtain ⟨early, first, firstBounded⟩ := firstHypothesis env
      obtain ⟨late, second, secondBounded⟩ := secondHypothesis env
      refine ⟨early ++ late, .disj first second, ?_⟩
      rw [weight_disj, List.length_append]
      exact Nat.add_le_add firstBounded secondBounded
  | @call depth rule arguments _ bodiesHypothesis =>
      obtain ⟨base, fresh⟩ := Search.exists_below_call rule (Pattern.narrow env arguments) env
      obtain ⟨found, body, bounded⟩ := bodiesHypothesis base fresh.1
        (rule.entry (Pattern.narrow env arguments) base)
      refine ⟨_, .call fresh body, ?_⟩
      rw [weight_call database depth rule arguments base]
      exact Nat.le_trans (List.length_filterMap_le ..) bounded

/-- If all rules that a goal reaches call only rules that were defined before them, then its search
ends from every environment and over all stored facts: the solutions are finitely many, no more than
the goal weighs, and pulls that may take steps enough give as many of them as are asked for.  The
goal has one weight, and it is computed by following calls as deep as the order goes. -/
theorem take_bounded {state : State} {env : Environment} (layered : Layered order goal)
    (deep : ∀ called ∈ Formula.callees goal, order called < depth)
    (goalBelow : Goal.Below state.nextId goal) (envBelow : env.Below state.nextId) :
    (∀ number, Weighs state.database goal number ↔
      number = weight state.database depth goal) ∧
    ∃ solutions : List Environment,
      solutions.length ≤ weight state.database depth goal ∧
      ∃ enough, ∀ allowed, enough ≤ allowed → ∀ wanted,
        ((start goal env state.database).take allowed wanted state).1 =
          .upTo wanted solutions := by
  have shallow := layered.shallow deep
  have weighs := shallow.weighs state.database
  obtain ⟨solutions, lists, bounded⟩ := shallow.exists_lists state.database env
  refine ⟨fun number => ⟨fun other => other.unique weighs, fun same => ?_⟩, solutions, bounded,
    lists.exists_batch goalBelow envBelow⟩
  rw [same]
  exact weighs

end Goal

/-! ## Two rules, one after the other -/

namespace Outings

/-- Two stretches of road in a row. -/
def pair : Rule where
  template :=
    { key := 0, name := "pair", arity := 2, locals := [.generated], inner := []
      body := .conj (.fact Routes.stretch [.slot 0, .slot 2])
        (.fact Routes.stretch [.slot 2, .slot 1]) }
  captured := []
  rules := []

/-- One stretch, or two in a row. -/
def outing : Rule where
  template :=
    { key := 1, name := "outing", arity := 2, locals := [], inner := []
      body := .disj (.fact Routes.stretch [.slot 0, .slot 1])
        (.call (.outer 0) [.slot 0, .slot 1]) }
  captured := []
  rules := [pair]

/-- Where one outing leads from `a`. -/
def away : Goal :=
  .call outing [.value (.symbol "a"), .var ⟨1⟩]

def order (rule : Rule) : Nat :=
  rule.template.key

theorem layered_away : away.Layered order := by
  have reached : ∀ rule, away.Reaches rule → rule = outing ∨ rule = pair := by
    intro rule reaches
    induction reaches with
    | callee member => exact .inl (List.mem_singleton.1 member)
    | body _ _ member outerHypothesis =>
        rcases outerHypothesis with rfl | rfl
        · exact .inr (List.mem_singleton.1 member)
        · exact absurd member List.not_mem_nil
  intro rule reaches base _ called member
  rcases reached rule reaches with rfl | rfl
  · rw [List.mem_singleton.1 member]
    exact Nat.zero_lt_one
  · exact absurd member List.not_mem_nil

end Outings

/-- An outing on two stretches of road weighs six, two and two times two. -/
theorem Goal.take_bounded_away :
    Outings.away.Layered Outings.order ∧
    (∀ number, Weighs Routes.road.database Outings.away number ↔ number = 6) ∧
    ∃ solutions : List Environment, solutions.length ≤ 6 ∧
      ∃ enough, ∀ allowed, enough ≤ allowed → ∀ wanted,
        ((start Outings.away .empty Routes.road.database).take allowed wanted Routes.road).1 =
          .upTo wanted solutions := by
  have below : Goal.Below Routes.road.nextId Outings.away := by
    refine ⟨.intro ?_ ?_, Routes.onward_below.2⟩
    · exact fun _ member => absurd member List.not_mem_nil
    · intro known member
      rw [List.mem_singleton.1 member]
      exact .intro (fun _ inside => absurd inside List.not_mem_nil)
        (fun _ inside => absurd inside List.not_mem_nil)
  have deep : ∀ called ∈ Formula.callees Outings.away, Outings.order called < 2 := by
    intro called member
    rw [List.mem_singleton.1 member]
    decide
  exact ⟨Outings.layered_away, take_bounded Outings.layered_away deep below
    (Environment.over_empty _)⟩

end GroundLogic
