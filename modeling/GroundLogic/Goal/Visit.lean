import GroundLogic.Search

/-!
# Eager evaluation

The plain depth-first interpreter that lazy search has to agree with.  It hands each answer, as
soon as it is found, to a continuation, and goes on to the next when that has returned: a
conjunction visits its right goal from within the continuation of its left goal, so the right goal
is done with before the left one looks for its next answer.

A visit keeps the state in step with the answers, and remembers for each answer the state in which
it was found.  The depth of calls is bounded by `fuel`; a visit that would go deeper is cut short
and keeps what it has found by then.
-/

namespace GroundLogic

/-- How far an eager evaluation has come. -/
structure Visit where
  /-- The answers found, the latest first, each with the state in which it was found. -/
  found : List (Environment × State)
  state : State
  /-- Whether the evaluation gave up because calls went too deep. -/
  cut : Bool

namespace Visit

def start (state : State) : Visit :=
  ⟨[], state, false⟩

/-- Notes an answer, unless the visit was cut short before. -/
def note (answer : Environment) (visit : Visit) : Visit :=
  if visit.cut then visit
  else { visit with found := (answer, visit.state) :: visit.found }

def giveUp (visit : Visit) : Visit :=
  { visit with cut := true }

end Visit

/-- What happens at each answer. -/
abbrev Continuation := Environment → Visit → Visit

abbrev CallVisitor := Rule → Pattern → Environment → Continuation → Visit → Visit

namespace Goal

/-- Visits all answers of a goal, with calls left to a visitor. -/
def visitWith (visitCall : CallVisitor) : Goal → Environment → Continuation → Visit → Visit
  | .fact relation pattern, env, resume, visit =>
      ((visit.state.table relation).tuples.filter
          (Pattern.admits (Pattern.narrow env pattern))).foldl
        (fun current tuple =>
          match Pattern.unify pattern tuple env with
          | some extended => resume extended current
          | none => current)
        visit
  | .conj left right, env, resume, visit =>
      visitWith visitCall left env
        (fun extended current => visitWith visitCall right extended resume current) visit
  | .disj left right, env, resume, visit =>
      visitWith visitCall right env resume (visitWith visitCall left env resume visit)
  | .call rule arguments, env, resume, visit =>
      visitCall rule (Pattern.narrow env arguments) env resume visit

/-- Visits all answers of a goal, with calls at most `fuel` deep. -/
def visit : Nat → Goal → Environment → Continuation → Visit → Visit
  | 0 => visitWith fun _ _ _ _ current => current.giveUp
  | fuel + 1 =>
      visitWith fun rule arguments env resume current =>
        if current.cut then current
        else
          match rule.instantiate arguments current.state with
          | (none, after) => { current with state := after }
          | (some made, after) =>
              visit fuel made.body made.start
                (fun answer inner =>
                  match Pattern.bindBack answer arguments made.parameters env with
                  | some extended => resume extended inner
                  | none => inner)
                { current with state := after }

/-- Evaluates a goal eagerly, with calls at most `fuel` deep. -/
def visitAll (fuel : Nat) (goal : Goal) (env : Environment) (state : State) : Visit :=
  visit fuel goal env Visit.note (.start state)

end Goal

end GroundLogic
