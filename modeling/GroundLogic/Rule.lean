import GroundLogic.ArityError
import GroundLogic.Formula

/-!
# Rules

A rule is a template together with what the template takes from its surroundings.

* A `Template` is a formula over places instead of variables.  A place holds a value, a wildcard or
  the number of a variable in scope.  The scope of a body is its own frame (parameters, then
  locals) followed by the captured variables, so the same template can be filled in over and over
  with fresh variables.
* Rules defined inside a body are templates of their own.  They capture the whole scope of the body
  and may call the rules before them, the rule around them and whatever that rule may call.
* `Rule.body base` is the goal that the rule stands for when the next free variable number is
  `base`.

Since filling in is a function of the base alone, a rule gives the same goal on every build up to
its fresh variables.

## Scope

In a host program a body is made by a builder, which is an arbitrary function of the parameters.  A
template is a builder that is one fixed tree: every build numbers the parameters first, then the
locals, then what the definitions inside create, one after the other from left to right, and nothing
but these numbers depends on when it happens.  Builders that do more are left out:

* those with a hidden state that they read or write, such as a counter of their own builds, so that
  a later build gives another tree;
* those that branch on the variables that they are handed, on the number that a variable has or on
  how many variables there are already;
* those that search, query, fill or validate relations and goals on the way;
* those that create locals after or between the definitions inside, which differ from a template in
  the numbers of their variables.

Rules are specified as stateless, which rules out all but the last of these.
-/

namespace GroundLogic

inductive Place where
  | value (constant : Value)
  | slot (index : Nat)
  | wildcard
  deriving DecidableEq, Repr, Inhabited

/-- How a template names the rule of a call: a rule defined inside the body, the rule itself, or a
captured one. -/
inductive Callee where
  | inner (index : Nat)
  | self
  | outer (index : Nat)
  deriving DecidableEq, Repr, Inhabited

/-- A rule before it is given its surroundings: one fixed tree over the parameters, the locals and
the rules defined inside, in this order.  It stands for a builder that makes the same tree on every
build and neither has a state nor looks at the variables that it is handed.  The key is the number
under which builds are counted. -/
structure Template where
  key : Nat
  name : String
  arity : Nat
  locals : List Declaration
  inner : List Template
  body : Formula Place Callee
  deriving Repr

/-- A template with the variables and rules that it captures: a builder with what it takes from its
surroundings.  It takes nothing else, so what it builds depends on the next free number only. -/
structure Rule where
  template : Template
  captured : List Variable
  rules : List Rule
  deriving Repr

/-- A goal is a formula over terms and rules. -/
abbrev Goal := Formula Term Rule

namespace Place

/-- The term at a place, once the variables in scope are known.  A number beyond the scope is
nobody's variable and matches anything. -/
def fill (scope : List Variable) : Place → Term
  | .value constant => .value constant
  | .slot index =>
      match scope[index]? with
      | some unknown => .var unknown
      | none => .wildcard
  | .wildcard => .wildcard

end Place

namespace Callee

/-- The rule that a reference means, given the rule itself and the rules inside it.  A number
beyond either list means the rule itself. -/
def resolve (rule : Rule) (innerRules : List Rule) : Callee → Rule
  | .inner index => innerRules[index]?.getD rule
  | .self => rule
  | .outer index => rule.rules[index]?.getD rule

end Callee

namespace Template

/-- What is declared for the variables of one build: the parameters, named after the rule and
their position, then the locals. -/
def declarations (template : Template) : List Declaration :=
  (List.range template.arity).map
      (fun position => .named (template.name ++ "." ++ toString position) none) ++
    template.locals

/-- The number of variables that one build creates, not counting rules defined inside. -/
def frameSize (template : Template) : Nat :=
  template.arity + template.locals.length

@[simp]
theorem length_declarations (template : Template) :
    template.declarations.length = template.frameSize := by
  simp [declarations, frameSize]

/-- The rules made of a list of templates in one scope.  Each may call those before it and the
rules already known. -/
def close (scope : List Variable) : List Template → List Rule → List Rule
  | [], _ => []
  | template :: templates, known =>
      ⟨template, scope, known⟩ :: close scope templates (⟨template, scope, known⟩ :: known)

end Template

namespace Rule

def name (rule : Rule) : String :=
  rule.template.name

def arity (rule : Rule) : Nat :=
  rule.template.arity

/-- How a rule is announced: its name and its arity. -/
def text (rule : Rule) : String :=
  rule.name ++ "/" ++ toString rule.arity

/-- The parameters of a build at `base`. -/
def parameters (rule : Rule) (base : Nat) : List Variable :=
  (List.range rule.arity).map fun position => ⟨base + position⟩

/-- The variables that a build at `base` creates for its body. -/
def frame (rule : Rule) (base : Nat) : List Variable :=
  (List.range rule.template.frameSize).map fun position => ⟨base + position⟩

/-- The variables that the body may mention: its own and the captured ones. -/
def scope (rule : Rule) (base : Nat) : List Variable :=
  rule.frame base ++ rule.captured

def innerRules (rule : Rule) (base : Nat) : List Rule :=
  Template.close (rule.scope base) rule.template.inner (rule :: rule.rules)

/-- The goal that the rule stands for, with variables numbered from `base`. -/
def body (rule : Rule) (base : Nat) : Goal :=
  rule.template.body.map
    (Place.fill (rule.scope base))
    (Callee.resolve rule (rule.innerRules base))

/-- A call with the right number of arguments passes. -/
def checkArity (rule : Rule) (actual : Nat) : Except ArityError Unit :=
  if actual = rule.arity then .ok () else .error (.rule rule.name rule.arity actual)

end Rule

namespace Goal

def text (names : Naming) (goal : Goal) : String :=
  Formula.text (Term.text names) Rule.name goal

def unknowns (goal : Goal) : List Variable :=
  Pattern.unknowns (Formula.arguments goal)

end Goal

end GroundLogic
