import GroundLogic.Proofs.Goal.Reach
import GroundLogic.Proofs.Renaming.Meaning
import GroundLogic.Proofs.Solutions.Listing

/-!
# Solutions and meaning

Every solution makes its goal true, whatever the variables that it leaves open stand for; and once
the search has ended, every assignment that makes the goal true extends one of the solutions.
-/

namespace GroundLogic

namespace Goal

variable {database : Database} {goal : Goal} {env : Environment} {search : Search}
  {answers given : List Environment}

/-! ## Calls -/

/-- Reads an assignment of the caller as one of the body: what the answer leaves open is taken from
the arguments. -/
def insideOf (answer : Environment) (arguments : Pattern) (base : Nat)
    (assignment : Assignment) : Assignment :=
  fun unknown =>
    match answer.get? unknown, Rule.argumentAt? arguments base unknown with
    | some known, _ => known
    | none, some (.var written) => assignment written
    | none, _ => default

theorem within_insideOf (answer : Environment) (arguments : Pattern) (base : Nat)
    (assignment : Assignment) : answer.Within (insideOf answer arguments base assignment) := by
  intro unknown value found
  simp only [insideOf, found]

/-- An assignment that extends what was bound back gives the parameters the values of the
arguments. -/
theorem denotes_insideOf {rule : Rule} {arguments : Pattern} {answer extended : Environment}
    {base : Nat} {assignment : Assignment} (sameLength : arguments.length = rule.arity)
    (extension : answer.Extends (rule.entry (Pattern.narrow env arguments) base))
    (returned : Pattern.bindBack answer (Pattern.narrow env arguments) (rule.parameters base)
      env = some extended)
    (within : extended.Within assignment) :
    Pattern.Denotes assignment arguments
      ((rule.parameters base).map (insideOf answer arguments base assignment)) := by
  rw [Pattern.denotes_map_iff, Rule.length_parameters]
  refine ⟨sameLength, fun term parameter paired => ?_⟩
  -- A position that is a value once it is narrowed is bound when the body is entered.
  have entered : ∀ constant, (Term.value constant, parameter) ∈
      (Pattern.narrow env arguments).zip (rule.parameters base) →
        answer.get? parameter = some constant := fun constant narrowed =>
    extension parameter constant (Rule.get?_entry.2 narrowed)
  cases term with
  | value constant =>
      have answered := entered constant (Pattern.value_mem_zip_narrow.2 (Or.inl paired))
      exact Term.denotes_value_iff.2
        (within_insideOf answer arguments base assignment parameter constant answered).symm
  | wildcard => exact .wildcard _
  | var unknown =>
      refine Term.denotes_var_iff.2 ?_
      cases answered : answer.get? parameter with
      | none => simp only [insideOf, answered, Rule.argumentAt?_eq_some paired]
      | some value =>
          simp only [insideOf, answered]
          apply within unknown value
          cases known : env.get? unknown with
          | some constant =>
              have same := entered constant
                (Pattern.value_mem_zip_narrow.2 (Or.inr ⟨unknown, paired, known⟩))
              rw [answered] at same
              rw [Option.some.inj same]
              exact Pattern.extends_of_bindBack returned unknown constant known
          | none =>
              rw [Pattern.bindBack_eq_bindAll] at returned
              apply Environment.get?_of_bindAll returned
              exact Pattern.mem_returned.2
                ⟨parameter, Pattern.var_mem_zip_narrow.2 ⟨paired, known⟩, answered⟩

/-! ## Soundness -/

theorem holds_of_mem_answers {relation : Relation} {pattern : Pattern} {answer : Environment}
    {tuples : List Tuple}
    (part : ∀ tuple ∈ tuples, tuple ∈ (database.table relation).tuples)
    (member : answer ∈ Pattern.answers pattern (pattern.narrow env) env tuples)
    {assignment : Assignment} (within : answer.Within assignment) :
    Holds database (.fact relation pattern) assignment := by
  obtain ⟨tuple, stored, admitted, unified⟩ := Pattern.exists_of_mem_answers member
  have sameLength := (Pattern.admits_iff.1 admitted).1
  rw [Pattern.length_narrow] at sameLength
  exact .fact (part tuple stored) (Pattern.denotes_of_unify sameLength unified within)

theorem holds_of_bindBack {rule : Rule} {arguments : Pattern} {answer extended : Environment}
    {base : Nat} (fresh : rule.Below base) (sameLength : arguments.length = rule.arity)
    (extension : answer.Extends (rule.entry (Pattern.narrow env arguments) base))
    (sound : ∀ inside, answer.Within inside → Holds database (rule.body base) inside)
    (returned : Pattern.bindBack answer (Pattern.narrow env arguments) (rule.parameters base)
      env = some extended)
    {assignment : Assignment} (within : extended.Within assignment) :
    Holds database (.call rule arguments) assignment :=
  .call fresh (sound _ (within_insideOf answer arguments base assignment))
    (denotes_insideOf sameLength extension returned within)

theorem holds_of_mem_branches {left right : Goal}
    {branches : List (Environment × List Environment)} {answer : Environment}
    (each : ∀ branch ∈ branches, Lists database right branch.1 branch.2)
    (leftSound : ∀ branch ∈ branches, ∀ assignment, branch.1.Within assignment →
      Holds database left assignment)
    (rightSound : ∀ branch ∈ branches, ∀ found ∈ branch.2, ∀ assignment,
      found.Within assignment → Holds database right assignment)
    (member : answer ∈ branches.flatMap Prod.snd)
    {assignment : Assignment} (within : answer.Within assignment) :
    Holds database (.conj left right) assignment := by
  obtain ⟨branch, branchMember, answered⟩ := List.mem_flatMap.1 member
  have extension := (each branch branchMember).extends answer answered
  exact .conj (leftSound branch branchMember assignment (within.of_extends extension))
    (rightSound branch branchMember answer answered assignment within)

theorem Lists.sound (lists : Lists database goal env answers) (defined : goal.WellDefined) :
    ∀ answer ∈ answers, ∀ assignment, answer.Within assignment →
      Holds database goal assignment := by
  induction lists with
  | fact =>
      intro answer member assignment within
      exact holds_of_mem_answers (fun _ stored => stored) member within
  | conj first each firstHypothesis eachHypothesis =>
      intro answer member assignment within
      refine holds_of_mem_branches each ?_ ?_ member within
      · intro branch branchMember
        exact firstHypothesis defined.of_conj.1 branch.1 (List.mem_map_of_mem branchMember)
      · intro branch branchMember
        exact eachHypothesis branch branchMember defined.of_conj.2
  | disj first second firstHypothesis secondHypothesis =>
      intro answer member assignment within
      rcases List.mem_append.1 member with early | late
      · exact .disjLeft (firstHypothesis defined.of_disj.1 answer early assignment within)
      · exact .disjRight (secondHypothesis defined.of_disj.2 answer late assignment within)
  | call fresh body bodyHypothesis =>
      intro answer member assignment within
      obtain ⟨found, answered, returned⟩ := List.mem_filterMap.1 member
      exact holds_of_bindBack fresh.1 defined.fits (body.extends found answered)
        (bodyHypothesis (defined.body fresh.1) found answered) returned within

theorem Underway.sound (underway : Underway database goal env search given)
    (defined : goal.WellDefined) :
    ∀ answer ∈ given, ∀ assignment, answer.Within assignment →
      Holds database goal assignment := by
  induction underway with
  | scan split =>
      intro answer member assignment within
      refine holds_of_mem_answers (fun tuple seen => ?_) member within
      rw [split]
      exact List.mem_append_left _ seen
  | idle early each earlyHypothesis =>
      intro answer member assignment within
      refine holds_of_mem_branches each ?_ ?_ member within
      · intro branch branchMember
        exact earlyHypothesis defined.of_conj.1 branch.1 (List.mem_map_of_mem branchMember)
      · intro branch branchMember
        exact (each branch branchMember).sound defined.of_conj.2
  | join early each late earlyHypothesis lateHypothesis =>
      intro answer member assignment within
      rcases List.mem_append.1 member with before | now
      · refine holds_of_mem_branches each ?_ ?_ before within
        · intro branch branchMember
          exact earlyHypothesis defined.of_conj.1 branch.1
            (List.mem_append_left _ (List.mem_map_of_mem branchMember))
        · intro branch branchMember
          exact (each branch branchMember).sound defined.of_conj.2
      · refine .conj ?_ ?_
        · exact earlyHypothesis defined.of_conj.1 _
            (List.mem_append_right _ (List.mem_singleton_self _)) assignment
            (within.of_extends (late.extends answer now))
        · exact lateHypothesis defined.of_conj.2 answer now assignment within
  | left early earlyHypothesis =>
      intro answer member assignment within
      exact .disjLeft (earlyHypothesis defined.of_disj.1 answer member assignment within)
  | right early late lateHypothesis =>
      intro answer member assignment within
      rcases List.mem_append.1 member with before | now
      · exact .disjLeft (early.sound defined.of_disj.1 answer before assignment within)
      · exact .disjRight (lateHypothesis defined.of_disj.2 answer now assignment within)
  | call => exact fun answer member => absurd member List.not_mem_nil
  | returning fresh inside insideHypothesis =>
      intro answer member assignment within
      obtain ⟨found, answered, returned⟩ := List.mem_filterMap.1 member
      exact holds_of_bindBack fresh.1 defined.fits (inside.extends found answered)
        (insideHypothesis (defined.body fresh.1) found answered) returned within

/-! ## Completeness -/

/-- Values that the caller agrees on can be bound back. -/
theorem exists_bindBack_within {rule : Rule} {arguments : Pattern} {answer : Environment}
    {base : Nat} {assignment inside : Assignment}
    (denotes : Pattern.Denotes assignment arguments ((rule.parameters base).map inside))
    (within : env.Within assignment) (answerWithin : answer.Within inside) :
    ∃ extended, Pattern.bindBack answer (Pattern.narrow env arguments) (rule.parameters base)
      env = some extended ∧ extended.Within assignment := by
  rw [Pattern.bindBack_eq_bindAll]
  apply Environment.exists_bindAll_within within
  rintro ⟨unknown, value⟩ member
  obtain ⟨parameter, paired, answered⟩ := Pattern.mem_returned.1 member
  obtain ⟨written, _⟩ := Pattern.var_mem_zip_narrow.1 paired
  have position := (Pattern.denotes_map_iff.1 denotes).2 (.var unknown) parameter written
  exact (Term.denotes_var_iff.1 position).trans (answerWithin parameter value answered)

theorem within_entry {rule : Rule} {arguments : Pattern} {base : Nat}
    {assignment inside : Assignment}
    (denotes : Pattern.Denotes assignment arguments ((rule.parameters base).map inside))
    (within : env.Within assignment) :
    (rule.entry (Pattern.narrow env arguments) base).Within inside := by
  intro parameter constant found
  obtain ⟨_, positions⟩ := Pattern.denotes_map_iff.1 denotes
  rcases Pattern.value_mem_zip_narrow.1 (Rule.get?_entry.1 found) with
    written | ⟨unknown, written, known⟩
  · exact (Term.denotes_value_iff.1 (positions _ parameter written)).symm
  · have position := Term.denotes_var_iff.1 (positions _ parameter written)
    exact position.symm.trans (within unknown constant known)

theorem Lists.complete (lists : Lists database goal env answers) {assignment : Assignment}
    (within : env.Within assignment) (holds : Holds database goal assignment) :
    ∃ answer ∈ answers, answer.Within assignment := by
  induction lists generalizing assignment with
  | @fact relation pattern env =>
      cases holds with
      | @fact _ _ tuple _ stored denotes =>
          obtain ⟨answer, unified, answerWithin⟩ :=
            Pattern.exists_unify_of_denotes denotes within
          have sameLength := (Pattern.denotes_iff.1 denotes).1
          refine ⟨answer, List.mem_filterMap.2 ⟨tuple, stored, ?_⟩, answerWithin⟩
          exact Pattern.answer?_narrow_eq_some_iff.2 ⟨sameLength, unified⟩
  | conj first each firstHypothesis eachHypothesis =>
      cases holds with
      | conj leftHolds rightHolds =>
          obtain ⟨middle, middleMember, middleWithin⟩ := firstHypothesis within leftHolds
          obtain ⟨branch, branchMember, rfl⟩ := List.mem_map.1 middleMember
          obtain ⟨answer, answered, answerWithin⟩ :=
            eachHypothesis branch branchMember middleWithin rightHolds
          exact ⟨answer, List.mem_flatMap.2 ⟨branch, branchMember, answered⟩, answerWithin⟩
  | disj first second firstHypothesis secondHypothesis =>
      cases holds with
      | disjLeft leftHolds =>
          obtain ⟨answer, answered, answerWithin⟩ := firstHypothesis within leftHolds
          exact ⟨answer, List.mem_append_left _ answered, answerWithin⟩
      | disjRight rightHolds =>
          obtain ⟨answer, answered, answerWithin⟩ := secondHypothesis within rightHolds
          exact ⟨answer, List.mem_append_right _ answered, answerWithin⟩
  | @call rule arguments env base found fresh body bodyHypothesis =>
      cases holds with
      | @call _ _ _ inside other otherFresh bodyHolds denotes =>
          obtain ⟨moved, movedHolds, sameValues⟩ :=
            exists_holds_body otherFresh fresh.1 bodyHolds
          rw [← sameValues] at denotes
          obtain ⟨answer, answered, answerWithin⟩ :=
            bodyHypothesis (within_entry denotes within) movedHolds
          obtain ⟨extended, returned, extendedWithin⟩ :=
            exists_bindBack_within denotes within answerWithin
          exact ⟨extended, List.mem_filterMap.2 ⟨answer, answered, returned⟩, extendedWithin⟩

/-! ## Streams -/

/-- What pulling an evaluation gives is sound for the declarative reading at any moment, and
complete once the stream has ended: every assignment that extends the environment and makes the
goal true extends one of the solutions. -/
theorem sound_and_complete {state : State}
    (valid : ∃ before after : State, validate goal before = .ok after)
    (accepted : ∀ rule, goal.Reaches rule → rule.Accepted)
    (goalBelow : Goal.Below state.nextId goal) (envBelow : env.Below state.nextId)
    (fuel wanted : Nat) :
    (∀ solution ∈ ((start goal env state.database).take fuel wanted state).1.answers,
      ∀ assignment, solution.Within assignment → Holds state.database goal assignment) ∧
    (((start goal env state.database).take fuel wanted state).1.completion = .ended →
      ∀ assignment, env.Within assignment → Holds state.database goal assignment →
        ∃ solution ∈ ((start goal env state.database).take fuel wanted state).1.answers,
          solution.Within assignment) := by
  obtain ⟨before, after, validated⟩ := valid
  have defined : goal.WellDefined := ⟨fits_of_validate validated, accepted⟩
  obtain ⟨underway, ended⟩ := underway_of_take goalBelow envBelow
    (rfl : (start goal env state.database).take fuel wanted state = (_, _, _))
  refine ⟨underway.sound defined, fun completion assignment within holds => ?_⟩
  exact (ended completion).complete within holds

/-- The places that can be reached from `a` are `b` and `c`. -/
theorem sound_and_complete_onward :
    (∃ before after : State, validate Routes.onward before = .ok after) ∧
    (∀ rule, Routes.onward.Reaches rule → rule.Accepted) ∧
    Goal.Below Routes.road.nextId Routes.onward ∧
    Environment.empty.Below Routes.road.nextId ∧
    ∀ assignment, Holds Routes.road.database Routes.onward assignment ↔
      assignment ⟨1⟩ = .symbol "b" ∨ assignment ⟨1⟩ = .symbol "c" := by
  have valid : ∃ before after : State, validate Routes.onward before = .ok after :=
    ⟨Routes.road, _, rfl⟩
  have envBelow : Environment.empty.Below Routes.road.nextId := Environment.over_empty _
  refine ⟨valid, Routes.accepted_of_reaches, Routes.onward_below, envBelow, fun assignment => ?_⟩
  obtain ⟨sound, complete⟩ := sound_and_complete valid Routes.accepted_of_reaches
    Routes.onward_below envBelow 20 3
  have answers : ((start Routes.onward .empty Routes.road.database).take 20 3 Routes.road).1 =
      ⟨[Routes.destination (.symbol "b"), Routes.destination (.symbol "c")], .ended⟩ := by
    decide
  rw [answers] at sound complete
  constructor
  · intro holds
    obtain ⟨solution, member, within⟩ :=
      complete rfl assignment (Environment.within_empty assignment) holds
    rcases List.mem_cons.1 member with rfl | later
    · exact Or.inl (Routes.within_destination_iff.1 within)
    · rw [List.mem_singleton.1 later] at within
      exact Or.inr (Routes.within_destination_iff.1 within)
  · rintro (toB | toC)
    · exact sound _ (List.mem_cons_self ..) assignment (Routes.within_destination_iff.2 toB)
    · exact sound _ (List.mem_cons_of_mem _ (List.mem_cons_self ..)) assignment
        (Routes.within_destination_iff.2 toC)

end Goal

end GroundLogic
