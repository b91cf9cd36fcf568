/-!
# Arity errors

The only contract that a caller can break: a tuple or pattern of the wrong length for a relation,
or a call with the wrong number of arguments for a rule.  An empty answer is never an error.
-/

namespace GroundLogic

/-- A length that does not fit, with the name of what it was meant for. -/
inductive ArityError where
  | relation (name : String) (expected actual : Nat)
  | rule (name : String) (expected actual : Nat)
  deriving DecidableEq, Repr

namespace ArityError

def message : ArityError → String
  | .relation name expected actual =>
      "relation `" ++ name ++ "` expects " ++ toString expected ++
        " arguments, but got " ++ toString actual
  | .rule name expected actual =>
      "rule `" ++ name ++ "` expects " ++ toString expected ++
        " arguments, got " ++ toString actual

end ArityError

end GroundLogic
