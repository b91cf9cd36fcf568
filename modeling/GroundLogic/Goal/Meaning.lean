import GroundLogic.Goal.Occurrence

/-!
# The declarative reading of goals

What a goal says, apart from how it is searched.  An assignment gives every variable a value.  A
fact holds when some stored tuple is what the pattern denotes; conjunction and disjunction are
"and" and "or"; a call holds when the body of its rule, built from variables that the rule does not
know, holds under some assignment that gives each parameter the value of its argument.  Recursive
rules are read by least fixed point: a goal holds when finitely many of these steps show it.
-/

namespace GroundLogic

/-- A value for every variable. -/
abbrev Assignment := Variable → Value

/-- The bindings of an environment are among those of an assignment. -/
def Environment.Within (env : Environment) (assignment : Assignment) : Prop :=
  ∀ unknown value, env.get? unknown = some value → assignment unknown = value

/-- All bindings of one environment are bindings of the other. -/
def Environment.Extends (larger smaller : Environment) : Prop :=
  ∀ unknown value, smaller.get? unknown = some value → larger.get? unknown = some value

/-- The values that a term may stand for; the wildcard stands for any value. -/
inductive Term.Denotes (assignment : Assignment) : Term → Value → Prop
  | value (constant : Value) : Denotes assignment (.value constant) constant
  | var (unknown : Variable) : Denotes assignment (.var unknown) (assignment unknown)
  | wildcard (value : Value) : Denotes assignment .wildcard value

/-- The tuples that a pattern may stand for: one value for each term. -/
def Pattern.Denotes (assignment : Assignment) : Pattern → Tuple → Prop
  | [], [] => True
  | term :: terms, stored :: values =>
      term.Denotes assignment stored ∧ Pattern.Denotes assignment terms values
  | _, _ => False

/-- What a goal says about an assignment, given the stored facts. -/
inductive Goal.Holds (database : Database) : Goal → Assignment → Prop
  | fact {relation : Relation} {pattern : Pattern} {tuple : Tuple} {assignment : Assignment}
      (stored : tuple ∈ (database.table relation).tuples)
      (denotes : Pattern.Denotes assignment pattern tuple) :
      Goal.Holds database (.fact relation pattern) assignment
  | conj {left right : Goal} {assignment : Assignment}
      (first : Goal.Holds database left assignment)
      (second : Goal.Holds database right assignment) :
      Goal.Holds database (.conj left right) assignment
  | disjLeft {left right : Goal} {assignment : Assignment}
      (first : Goal.Holds database left assignment) :
      Goal.Holds database (.disj left right) assignment
  | disjRight {left right : Goal} {assignment : Assignment}
      (second : Goal.Holds database right assignment) :
      Goal.Holds database (.disj left right) assignment
  | call {rule : Rule} {arguments : Pattern} {assignment inside : Assignment} {base : Nat}
      (fresh : rule.Below base)
      (body : Goal.Holds database (rule.body base) inside)
      (denotes : Pattern.Denotes assignment arguments ((rule.parameters base).map inside)) :
      Goal.Holds database (.call rule arguments) assignment

end GroundLogic
