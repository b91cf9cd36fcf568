import GroundLogic.Value

/-!
# Logic variables

A variable is its number and nothing else: two variables with the same name are different as soon
as their numbers are.  What a variable is called is written down once, in a declaration, when the
variable is created.
-/

namespace GroundLogic

/-- A logic variable.  Numbers are given out in order of creation, starting at 1. -/
structure Variable where
  id : Nat
  deriving DecidableEq, Repr, Inhabited

/-- What is said about a variable when it is created.  The kind of a named variable is a remark
only; it never refuses a binding. -/
inductive Declaration where
  | generated
  | named (name : String) (tag : Option Kind)
  deriving DecidableEq, Repr, Inhabited

namespace Declaration

/-- The name of a variable with this declaration; without a given name it is made of the number. -/
def nameOf (unknown : Variable) : Declaration → String
  | .generated => "_G" ++ toString unknown.id
  | .named name _ => name

def tag? : Declaration → Option Kind
  | .generated => none
  | .named _ tag => tag

/-- How a declared variable is announced. -/
def text (unknown : Variable) (declaration : Declaration) : String :=
  match declaration.tag? with
  | some kind => "var " ++ declaration.nameOf unknown ++ ": " ++ kind.text
  | none => "var " ++ declaration.nameOf unknown

end Declaration

/-- The name by which each variable is shown. -/
abbrev Naming := Variable → String

end GroundLogic
