/-!
# Limits

How many items a request asks for.  A limit that says nothing readable is kept as `malformed`: the
goal of the request is read all the same, and only then the request is refused.
-/

namespace GroundLogic

/-- The most items that a reply may list, as it is written. -/
inductive Limit where
  /-- The request names no limit. -/
  | usual
  | items (number : Nat)
  | malformed
  deriving DecidableEq, Repr

namespace Limit

/-- The number of items that a limit means; a request that names none asks for a thousand. -/
def number? : Limit → Option Nat
  | .usual => some 1000
  | .items number => some number
  | .malformed => none

end Limit

end GroundLogic
