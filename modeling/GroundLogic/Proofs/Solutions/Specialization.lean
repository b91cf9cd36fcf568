import GroundLogic.Proofs.Solutions.Endings

/-!
# Specializing the open query

The query with a wildcard at every position gives all the answers that a rule has.  The answers to
any other query, and the truth of any call, can be read off this list: an answer that holds another
value where the pattern has one is left out, and the pattern is written over the others
(`Rule.query_specializes`).
-/

namespace GroundLogic

/-! ## Reading an answer against a pattern -/

namespace Term

/-- Two different values exclude each other; what is open excludes nothing. -/
def allows : Term → Term → Bool
  | .value own, .value found => own = found
  | _, _ => true

/-- The own value, or else the one that was found, or else the own term. -/
def complete : Term → Term → Term
  | .value own, _ => .value own
  | _, .value found => .value found
  | own, _ => own

/-- What a position shows if its parameter has this value, or none. -/
def shown (found : Option Value) : Term → Term
  | .value own => .value own
  | own => (found.map Term.value).getD own

theorem complete_shown (own : Term) (found : Option Value) :
    own.complete (wildcard.shown found) = own.shown found := by
  cases own <;> cases found <;> rfl

theorem allows_shown_iff {own : Term} {found : Option Value} :
    own.allows (wildcard.shown found) = true ↔
      ∀ expected stored, own = .value expected → found = some stored → expected = stored := by
  cases own <;> cases found <;> simp [allows, shown]

end Term

namespace Pattern

/-- No position of the answer holds a value different from the one that the pattern has there. -/
def allows (pattern answer : Pattern) : Bool :=
  (pattern.zip answer).all fun position => position.1.allows position.2

/-- The pattern with the values of the answer at its open positions. -/
def complete (pattern answer : Pattern) : Pattern :=
  List.zipWith Term.complete pattern answer

/-- What the pattern makes of an answer to the open query, unless it excludes it. -/
def specialize? (pattern answer : Pattern) : Option Pattern :=
  if pattern.allows answer then some (pattern.complete answer) else none

theorem project_eq_map (solution : Environment) (pattern : Pattern) (parameters : List Variable) :
    project solution pattern parameters =
      (pattern.zip parameters).map fun position => position.1.shown (solution.get? position.2) := by
  induction pattern generalizing parameters with
  | nil => rfl
  | cons term terms inductionHypothesis =>
      cases parameters with
      | nil => cases term <;> rfl
      | cons parameter others =>
          cases term <;>
            simp only [project, List.zip_cons_cons, List.map_cons, inductionHypothesis, Term.shown]

/-- To the open query, an answer shows what the solution has for each parameter. -/
theorem project_wildcards (solution : Environment) (parameters : List Variable) :
    project solution (List.replicate parameters.length .wildcard) parameters =
      parameters.map fun parameter => Term.wildcard.shown (solution.get? parameter) := by
  induction parameters with
  | nil => rfl
  | cons parameter others inductionHypothesis =>
      rw [List.length_cons, List.replicate_succ, List.map_cons, ← inductionHypothesis]
      rfl

section Answers

variable {Item : Type} {pattern : Pattern} {items : List Item} {shown : Item → Term}

theorem allows_map_iff :
    pattern.allows (items.map shown) = true ↔
      ∀ own item, (own, item) ∈ pattern.zip items → own.allows (shown item) = true := by
  rw [allows, List.all_eq_true, List.zip_map_right]
  constructor
  · intro allowed own item member
    exact allowed (own, shown item) (List.mem_map_of_mem member)
  · intro allowed position member
    obtain ⟨⟨own, item⟩, paired, same⟩ := List.mem_map.1 member
    rw [← same]
    exact allowed own item paired

theorem complete_map :
    pattern.complete (items.map shown) =
      (pattern.zip items).map fun position => position.1.complete (shown position.2) := by
  rw [complete, List.zipWith_map_right, List.zip, List.map_zipWith]

end Answers

end Pattern

/-! ## Entering with more values -/

namespace Rule

variable {rule : Rule}

/-- The pattern that asks for everything. -/
def wildcards (rule : Rule) : Pattern :=
  List.replicate rule.arity .wildcard

/-- The open query has no value that a pattern could miss. -/
theorem refines_wildcards (rule : Rule) (pattern : Pattern) : Refines pattern rule.wildcards := by
  intro position constant written
  rw [wildcards, List.getElem?_replicate] at written
  split at written
  · cases written
  · cases written

theorem project_open (rule : Rule) (solution : Environment) (base : Nat) :
    Pattern.project solution rule.wildcards (rule.parameters base) =
      (rule.parameters base).map fun parameter =>
        Term.wildcard.shown (solution.get? parameter) := by
  have whole := Pattern.project_wildcards solution (rule.parameters base)
  rw [length_parameters] at whole
  exact whole

/-- A solution agrees with the values of the pattern if its answer is allowed. -/
theorem allows_project_iff {solution : Environment} {pattern : Pattern} {base : Nat} :
    pattern.allows (Pattern.project solution rule.wildcards (rule.parameters base)) = true ↔
      ∀ parameter stored expected, solution.get? parameter = some stored →
        (rule.entry pattern base).get? parameter = some expected → stored = expected := by
  rw [project_open, Pattern.allows_map_iff]
  constructor
  · intro allowed parameter stored expected found entered
    have position := allowed _ parameter (get?_entry.1 entered)
    exact (Term.allows_shown_iff.1 position expected stored rfl found).symm
  · intro agree own parameter member
    apply Term.allows_shown_iff.2
    intro expected stored same found
    rw [same] at member
    exact (agree parameter stored expected found (get?_entry.2 member)).symm

/-- What is merged with the values of the pattern shows the answer completed by the pattern. -/
theorem project_merge {solution joined : Environment} {pattern : Pattern} {base : Nat}
    (success : solution.merge (rule.entry pattern base) = some joined) :
    Pattern.project joined pattern (rule.parameters base) =
      pattern.complete (Pattern.project solution rule.wildcards (rule.parameters base)) := by
  rw [project_open, Pattern.complete_map, Pattern.project_eq_map]
  apply List.map_congr_left
  intro position member
  obtain ⟨own, parameter⟩ := position
  rw [Term.complete_shown]
  by_cases entered : (rule.entry pattern base).get? parameter = none
  · rw [Environment.get?_of_merge success, entered, Option.or_none]
  · obtain ⟨expected, found⟩ := Option.ne_none_iff_exists'.1 entered
    rw [argument_unique member (get?_entry.1 found)]
    rfl

theorem specialize_project (rule : Rule) (pattern : Pattern) (base : Nat)
    (solution : Environment) :
    (solution.merge (rule.entry pattern base)).map
        (fun joined => Pattern.project joined pattern (rule.parameters base)) =
      pattern.specialize? (Pattern.project solution rule.wildcards (rule.parameters base)) := by
  rw [Pattern.specialize?]
  by_cases allowed :
      pattern.allows (Pattern.project solution rule.wildcards (rule.parameters base)) = true
  · obtain ⟨joined, success⟩ := Environment.exists_merge_of_agree (allows_project_iff.1 allowed)
    rw [if_pos allowed, success, Option.map_some, project_merge success]
  · rw [if_neg allowed, Option.map_eq_none_iff, Option.eq_none_iff_forall_ne_some]
    intro joined success
    apply allowed
    apply allows_project_iff.2
    exact (Environment.isConsistent_iff _ _).1 (Environment.isConsistent_of_merge success)

/-- An open position excludes nothing, and the pattern keeps its own term there. -/
example : Pattern.specialize? [.value (.bool true), .var ⟨7⟩] [.wildcard, .wildcard] =
    some [.value (.bool true), .var ⟨7⟩] := by
  decide

/-! ## Queries -/

variable {pattern : Pattern} {state other : State} {answers : List Pattern}

/-- Entered with the values of the pattern and possibly elsewhere, the body has the solutions that
show the specialized answers. -/
theorem exists_lists_specialized (below : rule.Below state.nextId)
    (known : rule.Below other.nextId) (facts : other.database.SameFacts state.database)
    (openAnswers : (RuleQuery.mk rule rule.wildcards).Yields state answers) :
    ∃ found, Goal.Lists other.database (rule.body other.nextId)
        (rule.entry pattern other.nextId) found ∧
      (found.map fun solution =>
        Pattern.project solution pattern (rule.parameters other.nextId)) =
          answers.filterMap pattern.specialize? := by
  obtain ⟨solutions, lists, shown⟩ := (RuleQuery.yields_iff_lists below).1 openAnswers
  obtain ⟨mapping, sameRule, moves⟩ := exists_relocation below known
  have entered := lists_of_entry lists sameRule moves known (rule.refines_wildcards pattern)
  refine ⟨_, entered.of_sameFacts facts.symm, ?_⟩
  -- Both lists are read off the solutions of the open query, one by one.
  rw [← shown, List.filterMap_map, List.map_filterMap]
  apply List.filterMap_congr
  intro solution _
  rw [specialize_project, project_relocated sameRule moves]
  rfl

/-- The answers to the open query tell the answers to every other query, and the truth of every
call.  If the open query comes to its end, so does the query for a pattern; its answers are those of
the open query that hold no other value where the pattern has one, in their order and as often, with
the pattern written over them.  Whether the call has a solution is found out, and it has one exactly
if there is such an answer; without open positions, this is what a call of the rule returns. -/
theorem query_specializes (sameLength : pattern.length = rule.arity)
    (below : rule.Below state.nextId) (known : rule.Below other.nextId)
    (facts : other.database.SameFacts state.database)
    (openAnswers : (RuleQuery.mk rule rule.wildcards).Yields state answers) :
    rule.query pattern = .ok ⟨rule, pattern⟩ ∧
    (RuleQuery.mk rule pattern).Yields other (answers.filterMap pattern.specialize?) ∧
    rule.Decides pattern other (!(answers.filterMap pattern.specialize?).isEmpty) ∧
    (pattern.any Term.isOpen = false →
      ∃ enough, ∀ allowed, enough ≤ allowed →
        (rule.invoke allowed pattern other).map Prod.fst =
          .ok (some (.holds !(answers.filterMap pattern.specialize?).isEmpty))) := by
  have yields : (RuleQuery.mk rule pattern).Yields other
      (answers.filterMap pattern.specialize?) :=
    (RuleQuery.yields_iff_lists known).2 (exists_lists_specialized below known facts openAnswers)
  have decides := decides_of_yields known sameLength yields
  refine ⟨?_, yields, decides, fun closed => ?_⟩
  · simp only [query, checkArity, if_pos sameLength]
  · obtain ⟨enough, decided⟩ := decides
    refine ⟨enough, fun allowed bound => ?_⟩
    have answered := decided allowed bound
    simp only [invoke, closed, Bool.false_eq_true, if_false]
    cases succeeded : rule.succeeds allowed pattern other with
    | error error =>
        rw [succeeded] at answered
        cases answered
    | ok result =>
        rw [succeeded] at answered
        have found : result.1 = some !(answers.filterMap pattern.specialize?).isEmpty :=
          Except.ok.inj answered
        simp only [Except.map, found, Option.map_some]

/-- Of the three routes along the road two start at `a`, and one of them leads to `c`. -/
theorem query_specializes_route :
    (RuleQuery.mk Routes.route [.value (.symbol "a"), .var ⟨1⟩]).Yields Routes.road
      [[.value (.symbol "a"), .value (.symbol "b")],
        [.value (.symbol "a"), .value (.symbol "c")]] ∧
    Routes.route.Decides [.value (.symbol "a"), .value (.symbol "c")] Routes.road true ∧
    ∃ enough, ∀ allowed, enough ≤ allowed →
      (Routes.route.invoke allowed [.value (.symbol "a"), .value (.symbol "c")]
        Routes.road).map Prod.fst = .ok (some (.holds true)) := by
  have openAnswers : (RuleQuery.mk Routes.route Routes.route.wildcards).Yields Routes.road
      [[.value (.symbol "a"), .value (.symbol "b")], [.value (.symbol "b"), .value (.symbol "c")],
        [.value (.symbol "a"), .value (.symbol "c")]] :=
    RuleQuery.yields_of_take (Routes.route_below _)
      (rfl : (((RuleQuery.mk Routes.route Routes.route.wildcards).enumerate Routes.road).1.take
        40 4 ((RuleQuery.mk Routes.route Routes.route.wildcards).enumerate Routes.road).2).1 =
          ⟨_, .ended⟩)
  have towards := @query_specializes Routes.route [.value (.symbol "a"), .var ⟨1⟩] _ _ _ rfl
    (Routes.route_below _) (Routes.route_below _) (.refl _) openAnswers
  have closed := @query_specializes Routes.route
    [.value (.symbol "a"), .value (.symbol "c")] _ _ _ rfl
    (Routes.route_below _) (Routes.route_below _) (.refl _) openAnswers
  exact ⟨towards.2.1, closed.2.2.1, closed.2.2.2 rfl⟩

end Rule

end GroundLogic
