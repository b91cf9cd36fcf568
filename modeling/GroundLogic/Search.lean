import GroundLogic.Pull
import GroundLogic.Rule.Definition

/-!
# Lazy search

A search is a goal in the middle of its evaluation.  `Goal.start` turns a goal and an environment
into a search without any effect; `Search.step` moves it on by one step, and `Search.pull` takes
steps until the next answer.  The order is depth first and from left to right:

* a fact goes through the tuples of its relation in order;
* a conjunction evaluates the right goal in full at each answer of the left one;
* a disjunction starts its right goal, from the same environment, when the left one has ended;
* a call builds the body of its rule at its first step and binds each answer of the body back into
  the environment of the caller.

The only steps with an effect on the state are the first steps of calls.
-/

namespace GroundLogic

/-! ## Unification -/

namespace Term

/-- A bound variable is replaced by its value; every other term stays. -/
def narrow (env : Environment) : Term → Term
  | .var unknown =>
      match env.get? unknown with
      | some known => .value known
      | none => .var unknown
  | .value constant => .value constant
  | .wildcard => .wildcard

/-- Extends an environment so that a term equals a value. -/
def unify (env : Environment) : Term → Value → Option Environment
  | .var unknown, stored => env.bind unknown stored
  | .value expected, stored => if expected = stored then some env else none
  | .wildcard, _ => some env

end Term

namespace Pattern

def narrow (env : Environment) (pattern : Pattern) : Pattern :=
  pattern.map (Term.narrow env)

/-- Extends an environment so that a pattern equals a tuple, from left to right.  Positions beyond
the shorter of the two are ignored. -/
def unify : Pattern → Tuple → Environment → Option Environment
  | term :: terms, stored :: values, env =>
      match term.unify env stored with
      | some extended => unify terms values extended
      | none => none
  | _, _, env => some env

/-- Looks for the first tuple that the narrowed pattern admits and the full pattern unifies with.
The answer is the extended environment and the tuples after that one. -/
def nextMatch (pattern narrowed : Pattern) (env : Environment) :
    List Tuple → Option (Environment × List Tuple)
  | [] => none
  | tuple :: rest =>
      if narrowed.admits tuple then
        match pattern.unify tuple env with
        | some extended => some (extended, rest)
        | none => nextMatch pattern narrowed env rest
      else nextMatch pattern narrowed env rest

/-- Binds the answers of a rule body back into the environment of its caller: at each position
that holds a variable, the value of the parameter there, if it has one. -/
def bindBack (answer : Environment) :
    Pattern → List Variable → Environment → Option Environment
  | .var unknown :: arguments, parameter :: parameters, env =>
      match answer.get? parameter with
      | some found =>
          match env.bind unknown found with
          | some extended => bindBack answer arguments parameters extended
          | none => none
      | none => bindBack answer arguments parameters env
  | _ :: arguments, _ :: parameters, env => bindBack answer arguments parameters env
  | _, _, env => some env

end Pattern

/-! ## Searches -/

/-- A goal in the middle of its evaluation. -/
inductive Search where
  | ended
  /-- The tuples that remain of a fact; `narrowed` is the pattern under the environment. -/
  | scan (pattern narrowed : Pattern) (env : Environment) (remaining : List Tuple)
  /-- A conjunction: the right goal is being evaluated at the last answer of the left one. -/
  | join (current left : Search) (right : Goal)
  /-- A disjunction whose right goal has not been started. -/
  | alternative (left : Search) (right : Goal) (env : Environment)
  /-- A call that has not been pulled. -/
  | call (rule : Rule) (arguments : Pattern) (env : Environment)
  /-- A call in progress: the search of the body that was built for it. -/
  | returning (body : Search) (arguments : Pattern) (parameters : List Variable)
      (env : Environment)

/-- One step of a search: an answer, no answer yet, or the end. -/
inductive Step where
  | answer (env : Environment) (rest : Search)
  | silent (rest : Search)
  | finished

/-- Begins the evaluation of a goal in an environment.  Arguments of calls are narrowed now. -/
def Goal.start (goal : Goal) (env : Environment) (database : Database) : Search :=
  match goal with
  | .fact relation pattern =>
      .scan pattern (Pattern.narrow env pattern) env (database.table relation).tuples
  | .conj left right => .join .ended (Goal.start left env database) right
  | .disj left right => .alternative (Goal.start left env database) right env
  | .call rule arguments => .call rule (Pattern.narrow env arguments) env

namespace Search

/-- Moves a search on by one step. -/
def step : Search → State → Step × State
  | .ended, state => (.finished, state)
  | .scan pattern narrowed env remaining, state =>
      match Pattern.nextMatch pattern narrowed env remaining with
      | some (extended, rest) => (.answer extended (.scan pattern narrowed env rest), state)
      | none => (.finished, state)
  | .join current left right, state =>
      match current.step state with
      | (.answer env rest, after) => (.answer env (.join rest left right), after)
      | (.silent rest, after) => (.silent (.join rest left right), after)
      | (.finished, after) =>
          match left.step after with
          | (.answer env rest, later) =>
              (.silent (.join (Goal.start right env later.database) rest right), later)
          | (.silent rest, later) => (.silent (.join .ended rest right), later)
          | (.finished, later) => (.finished, later)
  | .alternative left right env, state =>
      match left.step state with
      | (.answer found rest, after) => (.answer found (.alternative rest right env), after)
      | (.silent rest, after) => (.silent (.alternative rest right env), after)
      | (.finished, after) => (.silent (Goal.start right env after.database), after)
  | .call rule arguments env, state =>
      match rule.instantiate arguments state with
      | (none, after) => (.silent .ended, after)
      | (some made, after) =>
          (.silent (.returning (Goal.start made.body made.start after.database)
            arguments made.parameters env), after)
  | .returning body arguments parameters env, state =>
      match body.step state with
      | (.answer found rest, after) =>
          match Pattern.bindBack found arguments parameters env with
          | some extended => (.answer extended (.returning rest arguments parameters env), after)
          | none => (.silent (.returning rest arguments parameters env), after)
      | (.silent rest, after) => (.silent (.returning rest arguments parameters env), after)
      | (.finished, after) => (.finished, after)

/-- Takes steps until the next answer or the end, but no more than `fuel` of them.  The search that
is left over goes on where this pull stopped. -/
def pull : Nat → Search → State → Pull Environment × Search × State
  | 0, search, state => (.unfinished, search, state)
  | fuel + 1, search, state =>
      match search.step state with
      | (.answer env rest, after) => (.found env, rest, after)
      | (.silent rest, after) => pull fuel rest after
      | (.finished, after) => (.ended, search, after)

/-- Pulls up to a number of answers, with at most `fuel` steps for each. -/
def take (fuel wanted : Nat) (search : Search) (state : State) :
    Batch Environment × Search × State :=
  Pull.take (fun source => source.1.pull fuel source.2) wanted (search, state)

end Search

/-- Validates a goal and begins its evaluation from the empty environment. -/
def Goal.solve (goal : Goal) (state : State) : Except ArityError (Search × State) :=
  match Goal.validate goal state with
  | .error error => .error error
  | .ok validated => .ok (Goal.start goal .empty validated.database, validated)

end GroundLogic
