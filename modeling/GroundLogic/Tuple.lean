import GroundLogic.Text.CommaList
import GroundLogic.Value

/-!
# Tuples

A tuple is a finite list of values.  Tuples are compared position by position, and a proper
beginning of a tuple comes before it.  The order is lawful in the same sense as that of values.
-/

namespace GroundLogic

abbrev Tuple := List Value

namespace Tuple

def text (tuple : Tuple) : String :=
  Text.parenthesized (tuple.map Value.text)

/-- The first position that differs decides; a tuple that ends first is the smaller. -/
def compare : Tuple → Tuple → Ordering
  | [], [] => .eq
  | [], _ :: _ => .lt
  | _ :: _, [] => .gt
  | left :: lefts, right :: rights => (left.compare right).then (compare lefts rights)

theorem compare_eq_iff_eq (left right : Tuple) :
    compare left right = .eq ↔ left = right := by
  induction left generalizing right with
  | nil => cases right <;> simp [compare]
  | cons head tail inductionHypothesis =>
      cases right with
      | nil => simp [compare]
      | cons first rest =>
          simp [compare, Ordering.then_eq_eq, Value.compare_eq_iff_eq,
            inductionHypothesis]

theorem compare_swap (left right : Tuple) :
    (compare left right).swap = compare right left := by
  induction left generalizing right with
  | nil => cases right <;> rfl
  | cons head tail inductionHypothesis =>
      cases right with
      | nil => rfl
      | cons first rest =>
          simp [compare, Ordering.swap_then, Value.compare_swap,
            inductionHypothesis]

end Tuple

end GroundLogic
