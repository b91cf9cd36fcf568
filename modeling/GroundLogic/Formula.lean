import GroundLogic.Relation

/-!
# Formulas

The shape that goals and rule bodies share.  A formula is a fact pattern, a conjunction, a
disjunction or a call; what stands at an argument position and how a rule is referred to are left
open.  Goals use terms and rules; the body of a rule template uses places and references.
-/

namespace GroundLogic

/-- A formula with arguments from `Argument` that refers to rules by `Reference`. -/
inductive Formula (Argument Reference : Type) where
  | fact (relation : Relation) (pattern : List Argument)
  | conj (left right : Formula Argument Reference)
  | disj (left right : Formula Argument Reference)
  | call (rule : Reference) (arguments : List Argument)
  deriving Repr

namespace Formula

variable {Argument Reference : Type}

/-- The same shape with every argument and every reference replaced. -/
def map {NewArgument NewReference : Type}
    (fill : Argument → NewArgument) (resolve : Reference → NewReference) :
    Formula Argument Reference → Formula NewArgument NewReference
  | .fact relation pattern => .fact relation (pattern.map fill)
  | .conj left right => .conj (left.map fill resolve) (right.map fill resolve)
  | .disj left right => .disj (left.map fill resolve) (right.map fill resolve)
  | .call rule arguments => .call (resolve rule) (arguments.map fill)

theorem map_id (formula : Formula Argument Reference) : formula.map id id = formula := by
  induction formula with
  | fact relation pattern => simp only [map, List.map_id]
  | conj left right leftHypothesis rightHypothesis =>
      simp only [map, leftHypothesis, rightHypothesis]
  | disj left right leftHypothesis rightHypothesis =>
      simp only [map, leftHypothesis, rightHypothesis]
  | call rule arguments => simp only [map, List.map_id, id_eq]

theorem map_map {MiddleArgument MiddleReference NewArgument NewReference : Type}
    (fill : MiddleArgument → NewArgument) (resolve : MiddleReference → NewReference)
    (firstFill : Argument → MiddleArgument) (firstResolve : Reference → MiddleReference)
    (formula : Formula Argument Reference) :
    (formula.map firstFill firstResolve).map fill resolve =
      formula.map (fill ∘ firstFill) (resolve ∘ firstResolve) := by
  induction formula with
  | fact relation pattern => simp only [map, List.map_map]
  | conj left right leftHypothesis rightHypothesis =>
      simp only [map, leftHypothesis, rightHypothesis]
  | disj left right leftHypothesis rightHypothesis =>
      simp only [map, leftHypothesis, rightHypothesis]
  | call rule arguments => simp only [map, List.map_map, Function.comp_apply]

/-- How a formula is written: a conjunction without parentheses, a disjunction always with them. -/
def text (argument : Argument → String) (name : Reference → String) :
    Formula Argument Reference → String
  | .fact relation pattern =>
      relation.name ++ Text.parenthesized (pattern.map argument)
  | .conj left right => left.text argument name ++ " & " ++ right.text argument name
  | .disj left right => "(" ++ left.text argument name ++ " | " ++ right.text argument name ++ ")"
  | .call rule arguments => name rule ++ Text.parenthesized (arguments.map argument)

/-- The arguments of all facts and calls, from left to right. -/
def arguments : Formula Argument Reference → List Argument
  | .fact _ pattern => pattern
  | .conj left right => left.arguments ++ right.arguments
  | .disj left right => left.arguments ++ right.arguments
  | .call _ arguments => arguments

theorem arguments_map {NewArgument NewReference : Type}
    (fill : Argument → NewArgument) (resolve : Reference → NewReference)
    (formula : Formula Argument Reference) :
    (formula.map fill resolve).arguments = formula.arguments.map fill := by
  induction formula with
  | fact relation pattern => rfl
  | conj left right leftHypothesis rightHypothesis =>
      simp only [map, arguments, List.map_append, leftHypothesis, rightHypothesis]
  | disj left right leftHypothesis rightHypothesis =>
      simp only [map, arguments, List.map_append, leftHypothesis, rightHypothesis]
  | call rule arguments => rfl

def callees : Formula Argument Reference → List Reference
  | .fact _ _ => []
  | .conj left right => left.callees ++ right.callees
  | .disj left right => left.callees ++ right.callees
  | .call rule _ => [rule]

def relations : Formula Argument Reference → List Relation
  | .fact relation _ => [relation]
  | .conj left right => left.relations ++ right.relations
  | .disj left right => left.relations ++ right.relations
  | .call _ _ => []

/-- The first formula joined with each of the others in turn, grouped to the left. -/
def conjAll (first : Formula Argument Reference) :
    List (Formula Argument Reference) → Formula Argument Reference :=
  List.foldl .conj first

/-- The first formula or any of the others, grouped to the left. -/
def disjAll (first : Formula Argument Reference) :
    List (Formula Argument Reference) → Formula Argument Reference :=
  List.foldl .disj first

end Formula

end GroundLogic
