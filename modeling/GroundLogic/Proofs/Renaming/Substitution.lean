import GroundLogic.Proofs.Renaming.Syntax
import Mathlib.Data.List.Basic

/-!
# Substitution

A substitution puts a value or a variable in the place of each variable; a renaming is a special
one.  Bindings are carried over to an environment by binding the images of their variables, where
two variables may well have the same image and an image may be a value already.  Carrying over has
the least result in which all bindings fit (`carry_eq_some_iff`).  What a fact gives after
substitution is what it gave before, carried over (`answers_substitute`).
-/

namespace GroundLogic

/-- What is put in the place of each variable.  It is never a wildcard, since a variable has the
same value wherever it stands. -/
structure Substitution where
  image : Variable → Term
  named : ∀ unknown, image unknown ≠ .wildcard

def Term.substitute (substitution : Substitution) : Term → Term
  | .value constant => .value constant
  | .var unknown => substitution.image unknown
  | .wildcard => .wildcard

def Pattern.substitute (substitution : Substitution) (pattern : Pattern) : Pattern :=
  pattern.map (Term.substitute substitution)

/-- The goal with other terms in the place of its variables.  The variables that its rules capture
are no terms of the goal; they are renamed. -/
def Goal.substitute (substitution : Substitution) (mapping : Renaming) (goal : Goal) : Goal :=
  Formula.map (Term.substitute substitution) (Rule.rename mapping) goal

/-! ## Terms and patterns -/

namespace Term

variable {substitution : Substitution} {term : Term}

theorem substitute_eq_value_iff {constant : Value} :
    term.substitute substitution = .value constant ↔
      term = .value constant ∨
        ∃ unknown, term = .var unknown ∧ substitution.image unknown = .value constant := by
  cases term <;> simp [substitute]

theorem substitute_eq_var_iff {target : Variable} :
    term.substitute substitution = .var target ↔
      ∃ unknown, term = .var unknown ∧ substitution.image unknown = .var target := by
  cases term <;> simp [substitute]

/-- A term that an environment gives a value keeps it in a larger one. -/
theorem narrow_of_extends {env larger : Environment} {value : Value}
    (extension : larger.Extends env) (narrowed : term.narrow env = .value value) :
    term.narrow larger = .value value := by
  rcases narrow_eq_value_iff.1 narrowed with written | ⟨unknown, written, known⟩
  · exact narrow_eq_value_iff.2 (.inl written)
  · exact narrow_eq_value_iff.2 (.inr ⟨unknown, written, extension unknown value known⟩)

theorem denotes_of_narrow {env : Environment} {assignment : Assignment} {value : Value}
    (within : env.Within assignment) (narrowed : term.narrow env = .value value) :
    term.Denotes assignment value := by
  rcases narrow_eq_value_iff.1 narrowed with rfl | ⟨unknown, rfl, known⟩
  · exact .value value
  · exact denotes_var_iff.2 (within unknown value known)

end Term

/-- The positions of a substituted pattern. -/
theorem Pattern.mem_zip_substitute {Item : Type} {substitution : Substitution} {pattern : Pattern}
    {items : List Item} {term : Term} {item : Item} :
    (term, item) ∈ (pattern.substitute substitution).zip items ↔
      ∃ written, (written, item) ∈ pattern.zip items ∧
        written.substitute substitution = term := by
  simp only [substitute, List.zip_map_left, List.mem_map, Prod.map_apply, id_eq, Prod.mk.injEq,
    Prod.exists]
  constructor
  · rintro ⟨written, other, member, substituted, rfl⟩
    exact ⟨written, member, substituted⟩
  · rintro ⟨written, member, substituted⟩
    exact ⟨written, item, member, substituted, rfl⟩

/-! ## Carrying bindings over -/

namespace Substitution

variable {substitution : Substitution} {env target larger result : Environment}
  {bindings more : List (Variable × Value)}

/-- The target gives the image of every bound variable the value of the variable. -/
def Fits (substitution : Substitution) (bindings : List (Variable × Value))
    (target : Environment) : Prop :=
  ∀ unknown value, (unknown, value) ∈ bindings →
    (substitution.image unknown).narrow target = .value value

namespace Fits

theorem of_extends (fits : substitution.Fits bindings target)
    (extension : larger.Extends target) : substitution.Fits bindings larger :=
  fun unknown value member => Term.narrow_of_extends extension (fits unknown value member)

theorem get?_eq {source unknown : Variable} {value : Value}
    (fits : substitution.Fits bindings target) (member : (source, value) ∈ bindings)
    (image : substitution.image source = .var unknown) : target.get? unknown = some value := by
  have narrowed := fits source value member
  rw [image, Term.narrow_eq_value_iff] at narrowed
  simpa using narrowed

theorem eq_of_value {source : Variable} {constant value : Value}
    (fits : substitution.Fits bindings target) (member : (source, value) ∈ bindings)
    (image : substitution.image source = .value constant) : constant = value := by
  have narrowed := fits source value member
  rw [image] at narrowed
  exact Term.value.inj narrowed

end Fits

/-- The target with the bindings carried over, if they can all be made. -/
def carry (substitution : Substitution) (target : Environment)
    (bindings : List (Variable × Value)) : Option Environment :=
  Pattern.unify (bindings.map fun binding => substitution.image binding.1)
    (bindings.map Prod.snd) target

/-- The result is the target with what is needed for the bindings to fit, and no more. -/
structure Carries (substitution : Substitution) (target : Environment)
    (bindings : List (Variable × Value)) (result : Environment) : Prop where
  fits : substitution.Fits bindings result
  extension : result.Extends target
  only : ∀ unknown value, result.get? unknown = some value →
    target.get? unknown = some value ∨
      ∃ source, (source, value) ∈ bindings ∧ substitution.image source = .var unknown

theorem mem_zip_images {term : Term} {value : Value} :
    (term, value) ∈
        List.zip (bindings.map fun binding => substitution.image binding.1)
          (bindings.map Prod.snd) ↔
      ∃ unknown, (unknown, value) ∈ bindings ∧ substitution.image unknown = term := by
  simp only [List.zip_map', List.mem_map, Prod.mk.injEq, Prod.exists]
  constructor
  · rintro ⟨unknown, other, member, image, rfl⟩
    exact ⟨unknown, member, image⟩
  · rintro ⟨unknown, member, image⟩
    exact ⟨unknown, value, member, image, rfl⟩

/-- Values stay what they are, and the variables that are put in are bound. -/
theorem carry_eq_some_iff_union :
    substitution.carry target bindings = some result ↔
      (∀ source constant value, (source, value) ∈ bindings →
        substitution.image source = .value constant → constant = value) ∧
      ∀ unknown value, result.get? unknown = some value ↔
        target.get? unknown = some value ∨
          ∃ source, (source, value) ∈ bindings ∧ substitution.image source = .var unknown := by
  rw [carry, Pattern.unify_eq_some_iff, Environment.bindAll_eq_some_iff]
  simp only [Pattern.Agrees, Pattern.mem_bindings, mem_zip_images]
  refine and_congr_left fun _ => ⟨?_, ?_⟩
  · exact fun agrees source constant value member image =>
      agrees constant value ⟨source, member, image⟩
  · rintro agrees constant value ⟨source, member, image⟩
    exact agrees source constant value member image

theorem carry_eq_some_iff :
    substitution.carry target bindings = some result ↔
      substitution.Carries target bindings result := by
  rw [carry_eq_some_iff_union]
  constructor
  · rintro ⟨agrees, union⟩
    refine ⟨fun unknown value member => ?_, fun unknown value found => ?_, fun unknown value => ?_⟩
    · cases image : substitution.image unknown with
      | value constant => rw [agrees unknown constant value member image, Term.narrow]
      | var other =>
          have bound := (union other value).2 (.inr ⟨unknown, member, image⟩)
          exact Term.narrow_eq_value_iff.2 (.inr ⟨other, rfl, bound⟩)
      | wildcard => exact absurd image (substitution.named unknown)
    · exact (union unknown value).2 (.inl found)
    · exact (union unknown value).1
  · rintro ⟨fits, extension, only⟩
    refine ⟨fun source constant value => fits.eq_of_value, fun unknown value => ?_⟩
    refine ⟨only unknown value, ?_⟩
    rintro (before | ⟨source, member, image⟩)
    · exact extension unknown value before
    · exact fits.get?_eq member image

/-- Bindings can be carried over when some assignment agrees with the target and with the images of
all bound variables. -/
theorem exists_carry_within {assignment : Assignment} (within : target.Within assignment)
    (denotes : ∀ unknown value, (unknown, value) ∈ bindings →
      (substitution.image unknown).Denotes assignment value) :
    ∃ result, substitution.carry target bindings = some result ∧ result.Within assignment := by
  refine Pattern.exists_unify_of_denotes (Pattern.denotes_iff.2 ⟨?_, ?_⟩) within
  · rw [List.length_map, List.length_map]
  · rintro ⟨term, value⟩ position
    obtain ⟨unknown, member, rfl⟩ := mem_zip_images.1 position
    exact denotes unknown value member

theorem exists_carry (extension : larger.Extends target)
    (fits : substitution.Fits bindings larger) :
    ∃ result, substitution.carry target bindings = some result := by
  have whole : larger.Within larger.assign := fun _ _ => Environment.assign_eq
  obtain ⟨result, carried, _⟩ :=
    exists_carry_within (whole.of_extends extension) fun unknown value member =>
      Term.denotes_of_narrow whole (fits unknown value member)
  exact ⟨result, carried⟩

/-- Some of the bindings may be carried over before the others. -/
theorem bind_carry_of_subset (subset : bindings ⊆ more) :
    ((substitution.carry target bindings).bind fun joined => substitution.carry joined more) =
      substitution.carry target more := by
  apply Option.ext
  intro result
  simp only [Option.bind_eq_some_iff, carry_eq_some_iff]
  constructor
  · rintro ⟨joined, first, second⟩
    refine ⟨second.fits, second.extension.trans first.extension, fun unknown value found => ?_⟩
    rcases second.only unknown value found with before | new
    · rcases first.only unknown value before with start | ⟨source, member, image⟩
      · exact .inl start
      · exact .inr ⟨source, subset member, image⟩
    · exact .inr new
  · intro carries
    have firstFits : substitution.Fits bindings result := fun unknown value member =>
      carries.fits unknown value (subset member)
    obtain ⟨joined, carried⟩ := exists_carry carries.extension firstFits
    have first := carry_eq_some_iff.1 carried
    refine ⟨joined, first, carries.fits, fun unknown value found => ?_,
      fun unknown value found => ?_⟩
    · rcases first.only unknown value found with before | ⟨source, member, image⟩
      · exact carries.extension unknown value before
      · exact firstFits.get?_eq member image
    · rcases carries.only unknown value found with before | new
      · exact .inl (first.extension unknown value before)
      · exact .inr new

/-- The values that the images of the variables have in the target. -/
def pullBack (substitution : Substitution) (target : Environment) : Assignment :=
  fun unknown => ((substitution.image unknown).narrow target).value?.getD default

theorem Fits.pullBack_eq (fits : substitution.Fits bindings target) :
    ∀ binding ∈ bindings, substitution.pullBack target binding.1 = binding.2 := by
  intro binding member
  rw [pullBack, fits binding.1 binding.2 member]
  rfl

/-- Of an environment that fits already, only what is bound in addition has to be carried over. -/
theorem bind_carry_bindAll (fits : substitution.Fits env.bindings target) :
    ((env.bindAll bindings).bind fun extended => substitution.carry target extended.bindings) =
      substitution.carry target bindings := by
  apply Option.ext
  intro result
  simp only [Option.bind_eq_some_iff, carry_eq_some_iff]
  constructor
  · rintro ⟨extended, bound, carries⟩
    refine ⟨fun unknown value member => ?_, carries.extension, fun unknown value found => ?_⟩
    · exact carries.fits unknown value
        (Environment.get?_eq_some_iff.1 (Environment.get?_of_bindAll bound member))
    · rcases carries.only unknown value found with before | ⟨source, member, image⟩
      · exact .inl before
      · rcases (Environment.bindAll_eq_some_iff.1 bound source value).1
            (Environment.get?_eq_some_iff.2 member) with before | new
        · exact .inl (fits.get?_eq (Environment.get?_eq_some_iff.1 before) image)
        · exact .inr ⟨source, new, image⟩
  · intro carries
    have envFits := fits.of_extends carries.extension
    have within : env.Within (substitution.pullBack result) := fun unknown value found =>
      envFits.pullBack_eq (unknown, value) (Environment.get?_eq_some_iff.1 found)
    obtain ⟨extended, bound, _⟩ :=
      Environment.exists_bindAll_within within carries.fits.pullBack_eq
    refine ⟨extended, bound, fun unknown value member => ?_, carries.extension,
      fun unknown value found => ?_⟩
    · rcases (Environment.bindAll_eq_some_iff.1 bound unknown value).1
          (Environment.get?_eq_some_iff.2 member) with before | new
      · exact envFits unknown value (Environment.get?_eq_some_iff.1 before)
      · exact carries.fits unknown value new
    · rcases carries.only unknown value found with before | ⟨source, member, image⟩
      · exact .inl before
      · exact .inr ⟨source,
          Environment.get?_eq_some_iff.1 (Environment.get?_of_bindAll bound member), image⟩

/-! ## Renamings as substitutions -/

def ofRenaming (mapping : Renaming) : Substitution where
  image := fun unknown => .var (mapping unknown)
  named := fun _ => nofun

theorem fits_ofRenaming {mapping : Renaming} :
    (ofRenaming mapping).Fits env.bindings target ↔ target.Extends (env.rename mapping) := by
  constructor
  · intro fits unknown value found
    obtain ⟨source, rfl⟩ := mapping.surjective unknown
    rw [Environment.get?_rename] at found
    exact fits.get?_eq (Environment.get?_eq_some_iff.1 found) rfl
  · intro extension unknown value member
    refine Term.narrow_eq_value_iff.2 (.inr ⟨mapping unknown, rfl, extension _ value ?_⟩)
    rw [Environment.get?_rename]
    exact Environment.get?_eq_some_iff.2 member

/-- To carry over along a renaming is to rename and to merge. -/
theorem carry_ofRenaming (mapping : Renaming) (target solution : Environment) :
    (ofRenaming mapping).carry target solution.bindings =
      (solution.rename mapping).merge target := by
  apply Option.ext
  intro result
  rw [carry_eq_some_iff, Environment.merge_eq_some_iff]
  constructor
  · intro carries unknown value
    have extension := fits_ofRenaming.1 carries.fits
    refine ⟨fun found => ?_, fun found => found.elim (extension unknown value)
      (carries.extension unknown value)⟩
    rcases carries.only unknown value found with before | ⟨source, member, image⟩
    · exact .inr before
    · cases image
      exact .inl ((Environment.get?_rename ..).trans (Environment.get?_eq_some_iff.2 member))
  · intro union
    refine ⟨fits_ofRenaming.2 fun unknown value found => (union unknown value).2 (.inl found),
      fun unknown value found => (union unknown value).2 (.inr found),
      fun unknown value found => ?_⟩
    rcases (union unknown value).1 found with renamed | before
    · obtain ⟨source, rfl⟩ := mapping.surjective unknown
      rw [Environment.get?_rename] at renamed
      exact .inr ⟨source, Environment.get?_eq_some_iff.1 renamed, rfl⟩
    · exact .inl before

end Substitution

theorem Goal.substitute_ofRenaming (mapping : Renaming) (goal : Goal) :
    Goal.substitute (.ofRenaming mapping) mapping goal = Goal.rename mapping goal := by
  have onTerms : Term.substitute (.ofRenaming mapping) = Term.rename mapping := by
    funext term
    cases term <;> rfl
  rw [substitute, onTerms, rename]

/-! ## Facts -/

namespace Pattern

variable {substitution : Substitution} {env target result : Environment}

theorem mem_bindings_substitute {pattern : Pattern} {tuple : Tuple} {unknown : Variable}
    {value : Value} :
    (unknown, value) ∈ (pattern.substitute substitution).bindings tuple ↔
      ∃ source, (source, value) ∈ pattern.bindings tuple ∧
        substitution.image source = .var unknown := by
  simp only [mem_bindings, mem_zip_substitute, Term.substitute_eq_var_iff]
  constructor
  · rintro ⟨_, member, source, rfl, image⟩
    exact ⟨source, member, image⟩
  · rintro ⟨source, member, image⟩
    exact ⟨_, member, source, rfl, image⟩

theorem agrees_substitute {pattern : Pattern} {tuple : Tuple} :
    (pattern.substitute substitution).Agrees tuple ↔
      pattern.Agrees tuple ∧
        ∀ source constant value, (source, value) ∈ pattern.bindings tuple →
          substitution.image source = .value constant → constant = value := by
  simp only [Agrees, mem_bindings, mem_zip_substitute, Term.substitute_eq_value_iff]
  constructor
  · intro agrees
    refine ⟨fun constant stored member => ?_, fun source constant value member image => ?_⟩
    · exact agrees constant stored ⟨_, member, .inl rfl⟩
    · exact agrees constant value ⟨_, member, .inr ⟨source, rfl, image⟩⟩
  · rintro ⟨agrees, imagesAgree⟩ constant stored ⟨_, member, rfl | ⟨source, rfl, image⟩⟩
    · exact agrees constant stored member
    · exact imagesAgree source constant stored member image

/-- To unify a substituted pattern is to carry over what the pattern itself would bind. -/
theorem unify_substitute_eq_some_iff {pattern : Pattern} {tuple : Tuple} :
    (pattern.substitute substitution).unify tuple target = some result ↔
      pattern.Agrees tuple ∧ substitution.carry target (pattern.bindings tuple) = some result := by
  rw [unify_eq_some_iff, Environment.bindAll_eq_some_iff, agrees_substitute, and_assoc,
    Substitution.carry_eq_some_iff_union]
  simp only [mem_bindings_substitute]

/-- A tuple gives the same answer after substitution, carried over. -/
theorem answer?_substitute (fits : substitution.Fits env.bindings target) (pattern : Pattern)
    (tuple : Tuple) :
    answer? (pattern.substitute substitution) ((pattern.substitute substitution).narrow target)
        target tuple =
      (answer? pattern (pattern.narrow env) env tuple).bind fun solution =>
        substitution.carry target solution.bindings := by
  apply Option.ext
  intro result
  simp only [answer?_narrow_eq_some_iff, unify_substitute_eq_some_iff, Option.bind_eq_some_iff]
  rw [← Substitution.bind_carry_bindAll fits, Option.bind_eq_some_iff, substitute,
    List.length_map]
  constructor
  · rintro ⟨sameLength, agrees, solution, bound, carried⟩
    exact ⟨solution, ⟨sameLength, unify_eq_some_iff.2 ⟨agrees, bound⟩⟩, carried⟩
  · rintro ⟨solution, ⟨sameLength, unified⟩, carried⟩
    obtain ⟨agrees, bound⟩ := unify_eq_some_iff.1 unified
    exact ⟨sameLength, agrees, solution, bound, carried⟩

theorem answers_substitute (fits : substitution.Fits env.bindings target) (pattern : Pattern)
    (tuples : List Tuple) :
    answers (pattern.substitute substitution) ((pattern.substitute substitution).narrow target)
        target tuples =
      (answers pattern (pattern.narrow env) env tuples).filterMap fun solution =>
        substitution.carry target solution.bindings := by
  rw [answers, answers, List.filterMap_filterMap]
  exact List.filterMap_congr fun tuple _ => answer?_substitute fits pattern tuple

end Pattern

end GroundLogic
