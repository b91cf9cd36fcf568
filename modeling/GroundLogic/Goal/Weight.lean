import GroundLogic.Goal.Occurrence
import GroundLogic.State

/-!
# The weight of a goal

How many solutions a goal can have at most, read off the goal and the number of stored tuples.  A
fact weighs as much as there are tuples, a conjunction weighs the product and a disjunction the sum
of what its parts weigh, and a call weighs what the body of its rule does.

For rules that call themselves this is not a number (`Weighs` is then empty).  `weight` computes it
for the others; calls are followed to a given depth.
-/

namespace GroundLogic

namespace Goal

/-- What a goal weighs when it is known what the rules that it calls do. -/
def weightWith (weigh : Rule → Nat) (database : Database) : Goal → Nat
  | .fact relation _ => (database.table relation).tuples.length
  | .conj left right => weightWith weigh database left * weightWith weigh database right
  | .disj left right => weightWith weigh database left + weightWith weigh database right
  | .call rule _ => weigh rule

/-- What a goal weighs, with calls at most `depth` deep; deeper ones weigh nothing.  A rule weighs
the same wherever its body is built, so it is built at zero. -/
def weight (database : Database) : Nat → Goal → Nat
  | 0 => weightWith (fun _ => 0) database
  | depth + 1 => weightWith (fun rule => weight database depth (rule.body 0)) database

/-- What it means that a goal has a weight. -/
inductive Weighs (database : Database) : Goal → Nat → Prop
  | fact {relation : Relation} {pattern : Pattern} :
      Weighs database (.fact relation pattern) (database.table relation).tuples.length
  | conj {left right : Goal} {first second : Nat} (early : Weighs database left first)
      (late : Weighs database right second) :
      Weighs database (.conj left right) (first * second)
  | disj {left right : Goal} {first second : Nat} (early : Weighs database left first)
      (late : Weighs database right second) :
      Weighs database (.disj left right) (first + second)
  /-- The body has the weight wherever it is built. -/
  | call {rule : Rule} {arguments : Pattern} {weight : Nat}
      (bodies : ∀ base, rule.Below base → Weighs database (rule.body base) weight) :
      Weighs database (.call rule arguments) weight

end Goal

end GroundLogic
