import GroundLogic.Proofs.Rule.Arguments
import Mathlib.Logic.Equiv.Basic

/-!
# Renaming variables

A renaming is a permutation of the variables.  It acts on terms, patterns, environments, rules and
goals, and every operation on them commutes with it.  Two renamings that agree on the variables of
an expression act on it in the same way.
-/

namespace GroundLogic

abbrev Renaming := Equiv.Perm Variable

/-! ## The action -/

def Term.rename (mapping : Renaming) : Term → Term
  | .value constant => .value constant
  | .var unknown => .var (mapping unknown)
  | .wildcard => .wildcard

def Pattern.rename (mapping : Renaming) (pattern : Pattern) : Pattern :=
  pattern.map (Term.rename mapping)

def Environment.rename (mapping : Renaming) (env : Environment) : Environment :=
  (env.bindings.map fun binding => (mapping binding.1, binding.2)).foldl
    (fun joined binding => joined.insert binding.1 binding.2) .empty

def Rule.rename (mapping : Renaming) : Rule → Rule
  | ⟨template, captured, rules⟩ =>
      ⟨template, captured.map mapping, rules.map (Rule.rename mapping)⟩

def Goal.rename (mapping : Renaming) (goal : Goal) : Goal :=
  Formula.map (Term.rename mapping) (Rule.rename mapping) goal

variable {mapping other : Renaming} {admitted : Variable → Prop}

/-! ## Terms and patterns -/

theorem Term.rename_congr {term : Term} (isOver : term.Over admitted)
    (agree : ∀ unknown, admitted unknown → mapping unknown = other unknown) :
    term.rename mapping = term.rename other := by
  cases term with
  | value constant => rfl
  | var unknown => exact congrArg Term.var (agree unknown (isOver unknown rfl))
  | wildcard => rfl

theorem Pattern.rename_congr {pattern : Pattern} (isOver : Pattern.Over admitted pattern)
    (agree : ∀ unknown, admitted unknown → mapping unknown = other unknown) :
    pattern.rename mapping = pattern.rename other :=
  List.map_congr_left fun term member => Term.rename_congr (isOver term member) agree

theorem Pattern.rename_cons (mapping : Renaming) (term : Term) (terms : Pattern) :
    Pattern.rename mapping (term :: terms) = term.rename mapping :: Pattern.rename mapping terms :=
  rfl

/-! ## Environments -/

namespace Environment

private theorem valueIn_map_rename (mapping : Renaming) (unknown : Variable)
    (bindings : List (Variable × Value)) :
    valueIn (mapping unknown) (bindings.map fun binding => (mapping binding.1, binding.2)) =
      valueIn unknown bindings := by
  induction bindings with
  | nil => rfl
  | cons head tail inductionHypothesis =>
      simp only [List.map_cons, valueIn, mapping.injective.eq_iff, inductionHypothesis]

/-- A renamed environment gives the renamed variables their old values. -/
@[simp]
theorem get?_rename (mapping : Renaming) (env : Environment) (unknown : Variable) :
    (env.rename mapping).get? (mapping unknown) = env.get? unknown := by
  rw [rename, get?_foldl_insert, get?_empty, Option.none_or, valueIn_map_rename]
  rfl

/-- An environment is a renamed one as soon as it looks like it at every renamed variable. -/
theorem eq_rename {env renamed : Environment}
    (same : ∀ unknown, renamed.get? (mapping unknown) = env.get? unknown) :
    renamed = env.rename mapping := by
  apply ext_get?
  intro unknown
  obtain ⟨source, rfl⟩ := mapping.surjective unknown
  rw [same, get?_rename]

@[simp]
theorem rename_empty (mapping : Renaming) : empty.rename mapping = empty :=
  rfl

theorem rename_congr {env : Environment} (isOver : env.Over admitted)
    (agree : ∀ unknown, admitted unknown → mapping unknown = other unknown) :
    env.rename mapping = env.rename other := by
  apply ext_bindings
  intro unknown value
  obtain ⟨source, rfl⟩ := mapping.surjective unknown
  obtain ⟨target, targetImage⟩ := other.surjective (mapping source)
  rw [get?_rename, ← targetImage, get?_rename]
  constructor
  · intro found
    have same := agree source (isOver source value found)
    rw [other.injective (targetImage.trans same)]
    exact found
  · intro found
    have same := agree target (isOver target value found)
    rw [mapping.injective (targetImage.symm.trans same.symm)]
    exact found

/-- Nothing happens to an environment whose variables are left alone. -/
theorem rename_eq_self {env : Environment} (isOver : env.Over admitted)
    (fixed : ∀ unknown, admitted unknown → mapping unknown = unknown) :
    env.rename mapping = env := by
  symm
  apply ext_bindings
  intro unknown value
  obtain ⟨source, rfl⟩ := mapping.surjective unknown
  rw [get?_rename]
  constructor
  · intro found
    have same := fixed (mapping source) (isOver _ value found)
    rw [mapping.injective same] at found
    exact found
  · intro found
    rw [fixed source (isOver source value found)]
    exact found

theorem bind_rename (mapping : Renaming) (env : Environment) (unknown : Variable)
    (value : Value) :
    (env.rename mapping).bind (mapping unknown) value =
      (env.bind unknown value).map (rename mapping) := by
  cases outcome : env.bind unknown value with
  | none =>
      obtain ⟨known, found, different⟩ := bind_eq_none_iff.1 outcome
      exact bind_eq_none_iff.2 ⟨known, by rw [get?_rename]; exact found, different⟩
  | some extended =>
      rw [Option.map_some, bind_eq_some_iff]
      intro tested known
      obtain ⟨source, rfl⟩ := mapping.surjective tested
      rw [get?_rename, get?_rename, mapping.injective.eq_iff]
      exact get?_bind_eq_some_iff outcome source known

theorem bindAll_rename (mapping : Renaming) (env : Environment)
    (bindings : List (Variable × Value)) :
    (env.rename mapping).bindAll
        (bindings.map fun binding => (mapping binding.1, binding.2)) =
      (env.bindAll bindings).map (rename mapping) := by
  induction bindings generalizing env with
  | nil => rfl
  | cons head tail inductionHypothesis =>
      obtain ⟨unknown, value⟩ := head
      simp only [List.map_cons, bindAll, bind_rename]
      cases env.bind unknown value with
      | none => rfl
      | some extended => exact inductionHypothesis extended

end Environment

/-! ## Rules and goals -/

theorem Rule.rename_congr {rule : Rule} (isOver : rule.Over admitted)
    (agree : ∀ unknown, admitted unknown → mapping unknown = other unknown) :
    rule.rename mapping = rule.rename other := by
  induction isOver with
  | @intro rule captured rules inductionHypothesis =>
      obtain ⟨template, unknowns, known⟩ := rule
      simp only [Rule.rename, Rule.mk.injEq, true_and]
      exact ⟨List.map_congr_left fun unknown member => agree unknown (captured unknown member),
        List.map_congr_left inductionHypothesis⟩

theorem Rule.over_rename {rule : Rule} :
    (rule.rename mapping).Over admitted ↔
      rule.Over fun unknown => admitted (mapping unknown) := by
  induction rule using Rule.inductionOn with
  | step rule inductionHypothesis =>
      obtain ⟨template, unknowns, known⟩ := rule
      rw [Rule.rename]
      constructor
      · rintro ⟨captured, rules⟩
        exact .intro
          (fun unknown member => captured _ (List.mem_map_of_mem member))
          (fun inner member =>
            (inductionHypothesis inner member).1 (rules _ (List.mem_map_of_mem member)))
      · rintro ⟨captured, rules⟩
        refine .intro ?_ ?_
        · intro unknown member
          obtain ⟨source, sourceMember, rfl⟩ := List.mem_map.1 member
          exact captured source sourceMember
        · intro inner member
          obtain ⟨source, sourceMember, rfl⟩ := List.mem_map.1 member
          exact (inductionHypothesis source sourceMember).2 (rules source sourceMember)

@[simp]
theorem Rule.template_rename (mapping : Renaming) (rule : Rule) :
    (rule.rename mapping).template = rule.template := by
  cases rule
  rw [Rule.rename]

@[simp]
theorem Rule.captured_rename (mapping : Renaming) (rule : Rule) :
    (rule.rename mapping).captured = rule.captured.map mapping := by
  cases rule
  rw [Rule.rename]

@[simp]
theorem Rule.rules_rename (mapping : Renaming) (rule : Rule) :
    (rule.rename mapping).rules = rule.rules.map (Rule.rename mapping) := by
  cases rule
  rw [Rule.rename]

theorem Goal.rename_congr {goal : Goal} (isOver : Goal.Over admitted goal)
    (agree : ∀ unknown, admitted unknown → mapping unknown = other unknown) :
    Goal.rename mapping goal = Goal.rename other goal := by
  induction goal with
  | fact relation pattern =>
      exact congrArg (Formula.fact relation) (Pattern.rename_congr isOver agree)
  | conj left right leftHypothesis rightHypothesis =>
      exact congrArg₂ Formula.conj (leftHypothesis isOver.1) (rightHypothesis isOver.2)
  | disj left right leftHypothesis rightHypothesis =>
      exact congrArg₂ Formula.disj (leftHypothesis isOver.1) (rightHypothesis isOver.2)
  | call rule arguments =>
      exact congrArg₂ Formula.call (Rule.rename_congr isOver.1 agree)
        (Pattern.rename_congr isOver.2 agree)

/-! ## Renaming nothing -/

theorem Term.rename_refl (term : Term) : term.rename (.refl _) = term := by
  cases term <;> rfl

theorem Pattern.rename_refl (pattern : Pattern) : pattern.rename (.refl _) = pattern := by
  rw [rename, List.map_congr_left fun term _ => Term.rename_refl term, List.map_id']

theorem Environment.rename_refl (env : Environment) : env.rename (.refl _) = env :=
  eq_comm.1 (eq_rename fun _ => rfl)

theorem Rule.rename_refl (rule : Rule) : rule.rename (.refl _) = rule := by
  induction rule using Rule.inductionOn with
  | step rule inductionHypothesis =>
      obtain ⟨template, captured, rules⟩ := rule
      rw [rename, List.map_congr_left inductionHypothesis]
      simp only [Equiv.coe_refl, List.map_id_fun, List.map_id_fun', id_eq]

theorem Goal.rename_refl (goal : Goal) : Goal.rename (.refl _) goal = goal := by
  have onTerms : Term.rename (.refl _) = id := funext Term.rename_refl
  have onRules : Rule.rename (.refl _) = id := funext Rule.rename_refl
  rw [rename, onTerms, onRules]
  exact Formula.map_id goal

end GroundLogic
