import GroundLogic.Proofs.Renaming.Meaning
import GroundLogic.Proofs.Renaming.Substitution
import GroundLogic.Proofs.Search.Ends
import GroundLogic.Proofs.Solutions.Listing

/-!
# Substitution and solutions

What a goal gives in an environment, it gives after substitution in every environment that fits: the
search ends as well, and the solutions are the same ones, each carried over and dropped where this
is impossible (`Lists.ends_substitute`).  Inside the body of a call there is nothing to substitute;
its variables are renamed, and it is entered with more values.
-/

namespace GroundLogic

/-! ## Calls -/

section Calls

variable {substitution : Substitution} {env target answer joined result : Environment}
  {rule other : Rule} {arguments : Pattern} {base there : Nat} {mapping : Renaming}
  {unknown : Variable} {value : Value}

/-- The arguments of a call after substitution, narrowed by the target. -/
abbrev Pattern.passed (substitution : Substitution) (target : Environment) (arguments : Pattern) :
    Pattern :=
  (arguments.substitute substitution).narrow target

theorem Pattern.mem_zip_passed
    (sameParameters : (rule.parameters base).map mapping = other.parameters there)
    {term : Term} {parameter : Variable} :
    (term, parameter) ∈ (arguments.passed substitution target).zip (other.parameters there) ↔
      ∃ written source, (written, source) ∈ arguments.zip (rule.parameters base) ∧
        (written.substitute substitution).narrow target = term ∧ mapping source = parameter := by
  rw [← sameParameters, List.zip_map_right]
  simp only [List.mem_map, Prod.map_apply, id_eq, Prod.mk.injEq, Prod.exists, mem_zip_narrow,
    mem_zip_substitute]
  constructor
  · rintro ⟨_, source, ⟨_, ⟨written, member, rfl⟩, rfl⟩, rfl, rfl⟩
    exact ⟨written, source, member, rfl, rfl⟩
  · rintro ⟨written, source, member, rfl, rfl⟩
    exact ⟨_, source, ⟨_, ⟨written, member, rfl⟩, rfl⟩, rfl, rfl⟩

/-- The body of the substituted call is entered with at least the values of the other one. -/
theorem Rule.fits_entry (fits : substitution.Fits env.bindings target)
    (sameParameters : (rule.parameters base).map mapping = other.parameters there) :
    (Substitution.ofRenaming mapping).Fits (rule.entry (arguments.narrow env) base).bindings
      (other.entry (arguments.passed substitution target) there) := by
  intro parameter constant member
  have entered := get?_entry.1 (Environment.get?_eq_some_iff.2 member)
  refine Term.narrow_eq_value_iff.2 (.inr ⟨mapping parameter, rfl, get?_entry.2 ?_⟩)
  rcases Pattern.value_mem_zip_narrow.1 entered with written | ⟨unknown, written, known⟩
  · exact (Pattern.mem_zip_passed sameParameters).2 ⟨_, parameter, written, rfl, rfl⟩
  · exact (Pattern.mem_zip_passed sameParameters).2 ⟨_, parameter, written,
      fits unknown constant (Environment.get?_eq_some_iff.1 known), rfl⟩

namespace Pattern

/-- What an answer binds in the caller, the target knows already, or the carried answer binds it. -/
theorem narrow_or_returned
    (sameParameters : (rule.parameters base).map mapping = other.parameters there)
    (carries : (Substitution.ofRenaming mapping).Carries
      (other.entry (arguments.passed substitution target) there) answer.bindings joined)
    (member : (unknown, value) ∈ returned answer (arguments.narrow env) (rule.parameters base)) :
    (substitution.image unknown).narrow target = .value value ∨
      ∃ moved, substitution.image unknown = .var moved ∧
        (moved, value) ∈
          returned joined (arguments.passed substitution target) (other.parameters there) := by
  obtain ⟨parameter, paired, answered⟩ := mem_returned.1 member
  have kept := carries.fits.get?_eq (Environment.get?_eq_some_iff.1 answered) rfl
  have passed : ((substitution.image unknown).narrow target, mapping parameter) ∈
      (arguments.passed substitution target).zip (other.parameters there) :=
    (mem_zip_passed sameParameters).2 ⟨_, parameter, (var_mem_zip_narrow.1 paired).1, rfl, rfl⟩
  cases narrowed : (substitution.image unknown).narrow target with
  | value constant =>
      rw [narrowed] at passed
      rw [carries.extension _ constant (Rule.get?_entry.2 passed)] at kept
      exact .inl (congrArg Term.value (Option.some.inj kept))
  | var moved =>
      rw [narrowed] at passed
      exact .inr ⟨moved, (Term.narrow_eq_var_iff.1 narrowed).1,
        mem_returned.2 ⟨mapping parameter, passed, kept⟩⟩
  | wildcard =>
      cases image : substitution.image unknown with
      | wildcard => exact absurd image (substitution.named unknown)
      | value constant =>
          rw [image] at narrowed
          cases narrowed
      | var moved =>
          rw [image, Term.narrow] at narrowed
          split at narrowed <;> cases narrowed

/-- What the carried answer binds in the target comes from what the answer binds in the caller. -/
theorem exists_of_mem_returned (fits : substitution.Fits env.bindings target)
    (sameParameters : (rule.parameters base).map mapping = other.parameters there)
    (carries : (Substitution.ofRenaming mapping).Carries
      (other.entry (arguments.passed substitution target) there) answer.bindings joined)
    (member : (unknown, value) ∈
      returned joined (arguments.passed substitution target) (other.parameters there)) :
    ∃ source, (source, value) ∈
        returned answer (arguments.narrow env) (rule.parameters base) ∧
      substitution.image source = .var unknown := by
  obtain ⟨_, passed, joinedFound⟩ := mem_returned.1 member
  have unentered := Rule.get?_entry_of_var passed
  obtain ⟨written, parameter, paired, narrowed, rfl⟩ := (mem_zip_passed sameParameters).1 passed
  obtain ⟨substituted, unbound⟩ := Term.narrow_eq_var_iff.1 narrowed
  obtain ⟨source, rfl, image⟩ := Term.substitute_eq_var_iff.1 substituted
  have unboundBefore : env.get? source = none := by
    cases known : env.get? source with
    | none => rfl
    | some constant =>
        rw [fits.get?_eq (Environment.get?_eq_some_iff.1 known) image] at unbound
        cases unbound
  refine ⟨source, mem_returned.2 ⟨parameter, var_mem_zip_narrow.2 ⟨paired, unboundBefore⟩, ?_⟩,
    image⟩
  rcases carries.only _ value joinedFound with entered | ⟨own, answered, same⟩
  · rw [unentered] at entered
    cases entered
  · rw [mapping.injective (Term.var.inj same)] at answered
    exact Environment.get?_eq_some_iff.2 answered

/-- An answer whose bindings can be carried over agrees with the values that the body of the
substituted call is entered with. -/
theorem exists_carry_entry (fits : substitution.Fits env.bindings target)
    (sameParameters : (rule.parameters base).map mapping = other.parameters there)
    (entered : answer.Extends (rule.entry (arguments.narrow env) base))
    (carries : substitution.Carries target
      (returned answer (arguments.narrow env) (rule.parameters base)) result) :
    ∃ joined, (Substitution.ofRenaming mapping).carry
      (other.entry (arguments.passed substitution target) there) answer.bindings = some joined := by
  rw [Substitution.carry_ofRenaming]
  apply Environment.exists_merge_of_agree
  intro parameter first second answered passed
  obtain ⟨written, source, paired, narrowed, rfl⟩ :=
    (mem_zip_passed sameParameters).1 (Rule.get?_entry.1 passed)
  rw [Environment.get?_rename] at answered
  have same : (Term.value second, source) ∈ (arguments.narrow env).zip (rule.parameters base) →
      first = second :=
    fun concrete => (Rule.value_eq_of_answer entered concrete answered).symm
  cases written with
  | wildcard => cases narrowed
  | value constant =>
      cases narrowed
      exact same (value_mem_zip_narrow.2 (.inl paired))
  | var unknown =>
      rw [Term.substitute] at narrowed
      cases known : env.get? unknown with
      | some constant =>
          rw [fits unknown constant (Environment.get?_eq_some_iff.1 known)] at narrowed
          cases narrowed
          exact same (value_mem_zip_narrow.2 (.inr ⟨unknown, paired, known⟩))
      | none =>
          have back := mem_returned.2 ⟨source, var_mem_zip_narrow.2 ⟨paired, known⟩, answered⟩
          have carried := carries.fits unknown first back
          rw [Term.narrow_of_extends carries.extension narrowed] at carried
          exact (Term.value.inj carried).symm

/-- Binding an answer back commutes with substitution. -/
theorem bindBack_substitute (fits : substitution.Fits env.bindings target)
    (sameParameters : (rule.parameters base).map mapping = other.parameters there)
    (entered : answer.Extends (rule.entry (arguments.narrow env) base)) :
    (((Substitution.ofRenaming mapping).carry
        (other.entry (arguments.passed substitution target) there) answer.bindings).bind
      fun joined => bindBack joined (arguments.passed substitution target)
        (other.parameters there) target) =
      (bindBack answer (arguments.narrow env) (rule.parameters base) env).bind
        fun solution => substitution.carry target solution.bindings := by
  rw [bindBack_eq_bindAll, Substitution.bind_carry_bindAll fits]
  apply Option.ext
  intro result
  simp only [Option.bind_eq_some_iff, bindBack_eq_bindAll, Substitution.carry_eq_some_iff]
  constructor
  · rintro ⟨joined, carries, bound⟩
    refine ⟨fun unknown value member => ?_, Environment.extends_of_bindAll bound,
      fun unknown value found => ?_⟩
    · rcases narrow_or_returned sameParameters carries member with narrowed | ⟨moved, image, back⟩
      · exact Term.narrow_of_extends (Environment.extends_of_bindAll bound) narrowed
      · exact Term.narrow_eq_value_iff.2
          (.inr ⟨moved, image, Environment.get?_of_bindAll bound back⟩)
    · rcases (Environment.bindAll_eq_some_iff.1 bound unknown value).1 found with before | back
      · exact .inl before
      · exact .inr (exists_of_mem_returned fits sameParameters carries back)
  · intro carries
    obtain ⟨joined, carried⟩ := exists_carry_entry fits sameParameters entered carries
    have inside := Substitution.carry_eq_some_iff.1 carried
    refine ⟨joined, inside, Environment.bindAll_eq_some_iff.2 fun unknown value => ⟨?_, ?_⟩⟩
    · intro found
      rcases carries.only unknown value found with before | ⟨source, member, image⟩
      · exact .inl before
      · rcases narrow_or_returned sameParameters inside member with
          narrowed | ⟨moved, otherImage, back⟩
        · rw [image, Term.narrow_eq_value_iff] at narrowed
          exact .inl (by simpa using narrowed)
        · rw [image] at otherImage
          cases otherImage
          exact .inr back
    · rintro (before | back)
      · exact carries.extension unknown value before
      · obtain ⟨source, member, image⟩ :=
          exists_of_mem_returned fits sameParameters inside back
        exact carries.fits.get?_eq member image

end Pattern

end Calls

namespace Goal

variable {database : Database} {goal : Goal} {env target : Environment}
  {answers : List Environment} {substitution : Substitution}

/-! ## Conjunctions -/

/-- The branches of a conjunction that can be carried over to the target. -/
def carriedBranches (substitution : Substitution) (target : Environment)
    (branches : List (Environment × List Environment)) :
    List (Environment × List Environment) :=
  branches.filterMap fun branch =>
    (substitution.carry target branch.1.bindings).map fun joined =>
      (joined, branch.2.filterMap fun solution => substitution.carry joined solution.bindings)

theorem fst_carriedBranches (branches : List (Environment × List Environment)) :
    (carriedBranches substitution target branches).map Prod.fst =
      (branches.map Prod.fst).filterMap fun solution =>
        substitution.carry target solution.bindings := by
  simp only [carriedBranches, List.map_filterMap, List.filterMap_map, Option.map_map]
  apply List.filterMap_congr
  intro branch _
  simp only [Function.comp_apply]
  cases substitution.carry target branch.1.bindings <;> rfl

theorem snd_carriedBranches (branches : List (Environment × List Environment))
    (extensions : ∀ branch ∈ branches, ∀ answer ∈ branch.2, answer.Extends branch.1) :
    (carriedBranches substitution target branches).flatMap Prod.snd =
      (branches.flatMap Prod.snd).filterMap fun solution =>
        substitution.carry target solution.bindings := by
  induction branches with
  | nil => rfl
  | cons branch others inductionHypothesis =>
      have later := inductionHypothesis fun other member =>
        extensions other (List.mem_cons_of_mem _ member)
      have here : (branch.2.filterMap fun solution =>
            substitution.carry target solution.bindings) =
          branch.2.filterMap fun solution =>
            (substitution.carry target branch.1.bindings).bind fun joined =>
              substitution.carry joined solution.bindings := by
        apply List.filterMap_congr
        intro answer answered
        have extension := extensions branch (List.mem_cons_self ..) answer answered
        exact (Substitution.bind_carry_of_subset extension.subset).symm
      rw [List.flatMap_cons, List.filterMap_append, ← later, here]
      simp only [carriedBranches, List.filterMap_cons]
      cases substitution.carry target branch.1.bindings with
      | none => simp
      | some joined => simp

/-! ## The substituted search -/

/-- After substitution the search ends whenever the other one does, in every state and from every
environment that fits. -/
theorem Lists.ends_substitute (lists : Lists database goal env answers)
    (substitution : Substitution) (mapping : Renaming)
    (fits : substitution.Fits env.bindings target) :
    Search.Ends database (start (Goal.substitute substitution mapping goal) target database)
      (answers.filterMap fun solution => substitution.carry target solution.bindings) := by
  induction lists generalizing substitution mapping target with
  | fact =>
      rw [← Pattern.answers_substitute fits]
      exact .scan
  | conj first each firstHypothesis eachHypothesis =>
      rw [← snd_carriedBranches _ fun branch member => (each branch member).extends]
      refine Search.Ends.join ?_ ?_
      · rw [fst_carriedBranches]
        exact firstHypothesis substitution mapping fits
      · intro branch member
        obtain ⟨source, sourceMember, kept⟩ := List.mem_filterMap.1 member
        obtain ⟨joined, carried, rfl⟩ := Option.map_eq_some_iff.1 kept
        exact eachHypothesis source sourceMember substitution mapping
          (Substitution.carry_eq_some_iff.1 carried).fits
  | disj first second firstHypothesis secondHypothesis =>
      rw [List.filterMap_append]
      exact (firstHypothesis substitution mapping fits).alternative
        (secondHypothesis substitution mapping fits)
  | @call rule arguments env base found fresh body bodyHypothesis =>
      refine Search.Ends.call fun state ready => ?_
      obtain ⟨extended, sameRule, moves⟩ := rule.exists_moves fresh.1 ready.below.1
      have sameParameters := Rule.parameters_rename moves
      have sameBody := Rule.body_rename moves
      rw [sameRule] at sameParameters sameBody
      have bodyEnds := bodyHypothesis (.ofRenaming extended) extended
        (Rule.fits_entry fits sameParameters)
      rw [substitute_ofRenaming, sameBody] at bodyEnds
      refine ⟨_, bodyEnds, ?_⟩
      rw [List.filterMap_filterMap, List.filterMap_filterMap]
      apply List.filterMap_congr
      intro answer member
      exact Pattern.bindBack_substitute fits sameParameters (body.extends answer member)

end Goal

end GroundLogic
