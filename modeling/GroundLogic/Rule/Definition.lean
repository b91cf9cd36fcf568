import GroundLogic.Goal.Validation

/-!
# Building and defining rules

A build creates the parameters, counts itself, creates the locals and defines the rules inside the
body from left to right.  Defining a rule is one build followed by a validation of the body; it is
here that wrong arities in a body come to light.  A rule inside a body that fails its validation
leaves no line in the journal and is otherwise treated like the others.
-/

namespace GroundLogic

namespace Rule

/-- Checks the body that was built for a definition and notes the definition. -/
def accept (rule : Rule) (body : Goal) (state : State) : Except ArityError State :=
  match Goal.validate body state with
  | .error error => .error error
  | .ok validated => .ok (validated.record (.defined rule body))

end Rule

namespace Template

mutual

/-- What one build of a template in its surroundings does to the state. -/
def build : Template → List Variable → List Rule → State → State
  | ⟨key, name, arity, locals, inner, body⟩, captured, rules, state =>
      let rule : Rule := ⟨⟨key, name, arity, locals, inner, body⟩, captured, rules⟩
      let created :=
        (state.declareAll rule.template.declarations).record (.built rule state.nextId)
      defineEach inner (rule.scope state.nextId) (rule :: rules) created

/-- Defines the rules made of templates in one scope, from left to right. -/
def defineEach : List Template → List Variable → List Rule → State → State
  | [], _, _, state => state
  | template :: templates, scope, known, state =>
      let rule : Rule := ⟨template, scope, known⟩
      let built := build template scope known state
      let defined :=
        match rule.accept (rule.body state.nextId) built with
        | .error _ => built
        | .ok accepted => accepted
      defineEach templates scope (rule :: known) defined

end

end Template

/-- A rule body made for one use, with the parameters that it mentions. -/
structure Build where
  parameters : List Variable
  body : Goal
  deriving Repr

/-- A rule body about to be searched: the build, and the environment that gives the parameters at
concrete positions their values. -/
structure Instance extends Build where
  start : Environment

namespace Rule

/-- Builds the body once, from fresh variables. -/
def build (rule : Rule) (state : State) : Build × State :=
  (⟨rule.parameters state.nextId, rule.body state.nextId⟩,
    rule.template.build rule.captured rule.rules state)

/-- Defines a rule: one build, whose body has to be valid. -/
def define (rule : Rule) (state : State) : Except ArityError Rule × State :=
  match rule.build state with
  | (made, built) =>
      match rule.accept made.body built with
      | .error error => (.error error, built)
      | .ok accepted => (.ok rule, accepted)

/-- The goal of a rule without variables of its own.  Nothing is counted as a build; only the
rules inside the body are defined. -/
def expand (rule : Rule) (state : State) : Goal × State :=
  (rule.body state.nextId,
    Template.defineEach rule.template.inner (rule.scope state.nextId)
      (rule :: rule.rules) state)

/-- Binds the parameters at concrete positions.  Positions beyond the shorter list are ignored. -/
def bindConcrete : Pattern → List Variable → Environment → Option Environment
  | .value constant :: arguments, parameter :: parameters, env =>
      match env.bind parameter constant with
      | some extended => bindConcrete arguments parameters extended
      | none => none
  | _ :: arguments, _ :: parameters, env => bindConcrete arguments parameters env
  | _, _, env => some env

/-- Builds the body for a call.  Open arguments leave their parameters unbound. -/
def instantiate (rule : Rule) (arguments : Pattern) (state : State) :
    Option Instance × State :=
  match rule.build state with
  | (made, built) =>
      match bindConcrete arguments made.parameters .empty with
      | none => (none, built)
      | some start => (some ⟨made, start⟩, built.record (.instantiated rule start))

end Rule

end GroundLogic
