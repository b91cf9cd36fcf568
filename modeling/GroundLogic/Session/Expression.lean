import GroundLogic.Variable

/-!
# Goal expressions

Goals and rules as a session writes them: relations, rules, goals and variables are meant by
handle.  An expression may contain pieces that say nothing readable; they are kept as `malformed`,
so that what stands before them is read all the same.
-/

namespace GroundLogic

inductive Operand where
  | value (constant : Value)
  | var (label : String)
  | wildcard
  | malformed
  deriving DecidableEq, Repr

mutual

inductive Expression where
  | fact (relation : String) (operands : List Operand)
  | call (rule : String) (operands : List Operand)
  | stored (goal : String)
  /-- A rule defined for the use of one expression, and that expression. -/
  | within (definition : RuleExpression) (scope : Expression)
  | every (parts : List Expression)
  | some (parts : List Expression)
  | malformed
  deriving Repr

inductive RuleExpression where
  | mk (handle name : String) (parameters : List String)
      (locals : List (String × Declaration)) (recursive : Bool) (body : Expression)
  deriving Repr

end

instance : Inhabited Expression :=
  ⟨.malformed⟩

namespace RuleExpression

/-- The handle under which the rule is stored or called. -/
def handle : RuleExpression → String
  | .mk handle _ _ _ _ _ => handle

end RuleExpression

end GroundLogic
