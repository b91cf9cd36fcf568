import GroundLogic.Proofs.Renaming.Body

/-!
# Renaming and meaning

What a goal says does not depend on the names of its variables (`Holds.rename`).  In particular a
call may be read through the body of any build (`exists_holds_body`).
-/

namespace GroundLogic

variable {mapping : Renaming} {admitted : Variable → Prop}

theorem Term.denotes_rename {assignment : Assignment} {term : Term} {value : Value}
    (denotes : term.Denotes assignment value) :
    (term.rename mapping).Denotes (fun unknown => assignment (mapping.symm unknown)) value := by
  cases denotes with
  | value => exact .value value
  | var unknown =>
      refine Term.denotes_var_iff.2 ?_
      simp only [Equiv.symm_apply_apply]
  | wildcard => exact .wildcard value

theorem Pattern.denotes_rename {assignment : Assignment} {pattern : Pattern} {tuple : Tuple}
    (denotes : pattern.Denotes assignment tuple) :
    (pattern.rename mapping).Denotes (fun unknown => assignment (mapping.symm unknown)) tuple := by
  induction pattern generalizing tuple with
  | nil =>
      cases tuple with
      | nil => exact denotes
      | cons stored values => exact denotes
  | cons term terms inductionHypothesis =>
      cases tuple with
      | nil => exact denotes
      | cons stored values =>
          exact ⟨Term.denotes_rename denotes.1, inductionHypothesis denotes.2⟩

/-- A build at one base can be renamed into a build of the renamed rule at another one. -/
theorem Rule.exists_moves {rule : Rule} {first second : Nat} (firstBelow : rule.Below first)
    (secondBelow : (rule.rename mapping).Below second) :
    ∃ extended : Renaming, rule.rename extended = rule.rename mapping ∧
      MovesFrame extended rule.template.frameSize first second := by
  obtain ⟨extended, agree, moves⟩ :=
    mapping.exists_extension first second rule.template.frameSize
  exact ⟨extended, (rename_congr (firstBelow.and (over_rename.1 secondBelow)) agree).symm, moves⟩

namespace Goal

theorem Holds.rename (mapping : Renaming) {database : Database} {goal : Goal}
    {assignment : Assignment} (holds : Holds database goal assignment) :
    Holds database (Goal.rename mapping goal) fun unknown =>
      assignment (mapping.symm unknown) := by
  induction holds generalizing mapping with
  | fact stored denotes => exact .fact stored (Pattern.denotes_rename denotes)
  | conj _ _ firstHypothesis secondHypothesis =>
      exact .conj (firstHypothesis mapping) (secondHypothesis mapping)
  | disjLeft _ firstHypothesis => exact .disjLeft (firstHypothesis mapping)
  | disjRight _ secondHypothesis => exact .disjRight (secondHypothesis mapping)
  | @call rule arguments assignment inside base fresh body denotes bodyHypothesis =>
      obtain ⟨target, targetBelow⟩ := (rule.rename mapping).exists_below
      obtain ⟨extended, sameRule, moves⟩ := rule.exists_moves fresh targetBelow
      refine @Holds.call database _ _ _ (fun unknown => inside (extended.symm unknown)) target
        targetBelow ?_ ?_
      · rw [← sameRule, ← Rule.body_rename moves]
        exact bodyHypothesis extended
      · rw [← sameRule, ← Rule.parameters_rename moves, List.map_map]
        simp only [Function.comp_def, Equiv.symm_apply_apply]
        exact Pattern.denotes_rename denotes

/-- If the body of one build holds, so does that of any other, with the same values for the
parameters. -/
theorem exists_holds_body {database : Database} {rule : Rule} {first second : Nat}
    {inside : Assignment} (firstBelow : rule.Below first) (secondBelow : rule.Below second)
    (holds : Holds database (rule.body first) inside) :
    ∃ moved : Assignment, Holds database (rule.body second) moved ∧
      (rule.parameters second).map moved = (rule.parameters first).map inside := by
  rw [← Rule.rename_refl rule] at secondBelow
  obtain ⟨extended, sameRule, moves⟩ := Rule.exists_moves firstBelow secondBelow
  rw [Rule.rename_refl] at sameRule
  refine ⟨fun unknown => inside (extended.symm unknown), ?_, ?_⟩
  · have moved := holds.rename extended
    rw [Rule.body_rename moves, sameRule] at moved
    exact moved
  · have sameParameters := Rule.parameters_rename moves
    rw [sameRule] at sameParameters
    rw [← sameParameters, List.map_map]
    simp only [Function.comp_def, Equiv.symm_apply_apply]

end Goal

end GroundLogic
