import GroundLogic.Search

/-!
# Questions to rules

A rule is asked in two ways: whether a call has a solution at all, and for all the answers to a
call.  A query is a call that waits to be enumerated; each enumeration builds the body afresh.  An
answer repeats the concrete arguments and fills each open position with the value of its
parameter, position by position, so a variable that stands at two positions need not agree.
-/

namespace GroundLogic

/-- A call that waits to be enumerated. -/
structure RuleQuery where
  rule : Rule
  pattern : Pattern
  deriving Repr

/-- An enumeration in progress. -/
structure Answers where
  pattern : Pattern
  parameters : List Variable
  search : Search

/-- The outcome of a call without open arguments is a truth value; any other call is a query. -/
inductive Invocation where
  | holds (truth : Bool)
  | query (query : RuleQuery)

namespace Pattern

/-- Fills the open positions with the values of the parameters.  A position whose parameter has no
value stays as it is. -/
def project (solution : Environment) : Pattern → List Variable → Pattern
  | .value constant :: arguments, _ :: parameters =>
      .value constant :: project solution arguments parameters
  | argument :: arguments, parameter :: parameters =>
      ((solution.get? parameter).map Term.value).getD argument ::
        project solution arguments parameters
  | _, _ => []

end Pattern

namespace RuleQuery

/-- Begins an enumeration: the body is built now. -/
def enumerate (query : RuleQuery) (state : State) : Answers × State :=
  match query.rule.instantiate query.pattern state with
  | (none, after) => (⟨query.pattern, [], .ended⟩, after)
  | (some made, after) =>
      (⟨query.pattern, made.parameters,
        Goal.start made.body made.start after.database⟩, after)

def text (names : Naming) (query : RuleQuery) : String :=
  query.pattern.text names query.rule.name

end RuleQuery

namespace Answers

/-- The next answer, found within `fuel` steps. -/
def pull (fuel : Nat) (answers : Answers) (state : State) :
    Pull Pattern × Answers × State :=
  match answers.search.pull fuel state with
  | (outcome, rest, after) =>
      (outcome.map fun solution => Pattern.project solution answers.pattern answers.parameters,
        { answers with search := rest }, after)

/-- Pulls up to a number of answers, with at most `fuel` steps for each. -/
def take (fuel wanted : Nat) (answers : Answers) (state : State) :
    Batch Pattern × Answers × State :=
  Pull.take (fun source => source.1.pull fuel source.2) wanted (answers, state)

end Answers

namespace Rule

/-- The first solution of a call, found within `fuel` steps. -/
def first (fuel : Nat) (rule : Rule) (arguments : Pattern) (state : State) :
    Pull Environment × State :=
  match rule.instantiate arguments state with
  | (none, after) => (.ended, after)
  | (some made, after) =>
      match (Goal.start made.body made.start after.database).pull fuel after with
      | (outcome, _, final) => (outcome, final)

/-- Asks for all answers to a call with the right number of arguments. -/
def query (rule : Rule) (arguments : Pattern) : Except ArityError RuleQuery :=
  match rule.checkArity arguments.length with
  | .error error => .error error
  | .ok () => .ok ⟨rule, arguments⟩

/-- Asks whether a call has a solution.  There is no truth value when `fuel` steps do not
suffice. -/
def succeeds (fuel : Nat) (rule : Rule) (arguments : Pattern) (state : State) :
    Except ArityError (Option Bool × State) :=
  match rule.checkArity arguments.length with
  | .error error => .error error
  | .ok () =>
      match rule.first fuel arguments state with
      | (.found _, after) => .ok (some true, after)
      | (.ended, after) => .ok (some false, after)
      | (.unfinished, after) => .ok (none, after)

/-- Calls a rule: with open arguments it is a query, without any it is asked whether it holds. -/
def invoke (fuel : Nat) (rule : Rule) (arguments : Pattern) (state : State) :
    Except ArityError (Option Invocation × State) :=
  if arguments.any Term.isOpen then
    match rule.query arguments with
    | .error error => .error error
    | .ok query => .ok (some (.query query), state)
  else
    match rule.succeeds fuel arguments state with
    | .error error => .error error
    | .ok (truth, after) => .ok (truth.map .holds, after)

end Rule

end GroundLogic
