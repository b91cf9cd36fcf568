import GroundLogic.Session.Basic

/-!
# Replies

What a session answers.  A reply shows things as they are seen from outside: variables by name and
number, rules by name and arity, environments by their bindings.  Why a request was refused is a
reply like any other.
-/

namespace GroundLogic

structure VariableView where
  name : String
  id : Nat
  text : String
  tag : Option Kind

inductive TermView where
  | value (constant : Value)
  | var (name : String) (id : Nat)
  | wildcard

structure BindingView where
  name : String
  id : Nat
  value : Value

structure EnvironmentView where
  bindings : List BindingView
  text : String

structure RuleView where
  name : String
  arity : Nat
  text : String

inductive ItemView where
  | tuple (tuple : Tuple)
  | bindings (bindings : List BindingView)
  | terms (terms : List TermView)

/-- Items that were pulled, and whether the end was reached. -/
structure BatchView where
  items : List ItemView
  ended : Bool

/-- Why a request was refused. -/
inductive Refusal where
  /-- The request makes no sense or means something that does not exist. -/
  | badInput
  /-- Something was to be inserted into a relation that is being read. -/
  | frozen
  /-- A JSON document is not the form of what was asked for. -/
  | undecodable
  | arity (error : ArityError)
  /-- The search took more steps than allowed. -/
  | unfinished

/-- What a session answers. -/
inductive Reply where
  | refused (reason : Refusal)
  | value (value : Value)
  | decodedValue (value : Value)
  | tuple (tuple : Tuple)
  | decodedTuple (tuple : Tuple)
  | comparison (order : Ordering)
  | wildcard
  | variable (view : VariableView)
  | term (text : String) (isOpen : Bool) (view : TermView) (value : Option Value)
  | equal (truth : Bool)
  | relation (name : String) (table : Table)
  | inserted (isNew : Bool) (table : Table)
  | insertedAll (added : Nat) (table : Table)
  | contains (truth : Bool)
  | count (number : Nat)
  /-- A pattern under which something is asked for, with its terms. -/
  | pattern (text : String) (terms : List TermView)
  /-- A pattern together with what was found for it. -/
  | patternItems (text : String) (terms : List TermView) (batch : BatchView)
  | cursor (text : String)
  | items (batch : BatchView)
  | dropped
  | environment (view : EnvironmentView)
  | conflict
  | binding (value : Option Value)
  | environments (equal consistent : Bool)
  | goal (text : String)
  | valid
  | opened
  | rule (view : RuleView)
  | builds (number : Nat)
  | holds (truth : Bool)
  | answers (text : String) (batch : BatchView)
  | book (names : List String)
  | registered (replaced : Option RuleView) (names : List String)
  | found (rule : Option RuleView)
  | lines (lines : List (Level × String))
  | inspected (text : String)

/-! ## Showing -/

def VariableView.ofVariable (state : State) (unknown : Variable) : VariableView where
  name := state.names unknown
  id := unknown.id
  text := (state.declaration unknown).text unknown
  tag := (state.declaration unknown).tag?

def TermView.ofTerm (names : Naming) : Term → TermView
  | .value constant => .value constant
  | .var unknown => .var (names unknown) unknown.id
  | .wildcard => .wildcard

/-- How bindings are shown: in increasing order of variables. -/
def BindingView.ofEnvironment (names : Naming) (env : Environment) : List BindingView :=
  env.bindings.map fun binding => ⟨names binding.1, binding.1.id, binding.2⟩

def EnvironmentView.ofEnvironment (names : Naming) (env : Environment) : EnvironmentView :=
  ⟨BindingView.ofEnvironment names env, env.text names⟩

def RuleView.ofRule (rule : Rule) : RuleView :=
  ⟨rule.name, rule.arity, rule.text⟩

def ItemView.ofItem (names : Naming) : Item → ItemView
  | .tuple stored => .tuple stored
  | .solution env => .bindings (BindingView.ofEnvironment names env)
  | .answer pattern => .terms (pattern.map (TermView.ofTerm names))

end GroundLogic
