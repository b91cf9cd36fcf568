import GroundLogic.Proofs.Pattern.Unification

/-!
# Passing arguments and answers

The parameters of one build are distinct, so a call can always be entered: the environment in which
the body starts binds exactly the parameters at concrete positions (`get?_entry`).  What an answer
of the body binds in the caller is the list of the values that it has for the parameters at the
positions of variables (`mem_returned`).
-/

namespace GroundLogic

namespace Rule

@[simp]
theorem length_parameters (rule : Rule) (base : Nat) :
    (rule.parameters base).length = rule.arity := by
  simp [parameters]

/-- The positions of a call, each with its parameter. -/
theorem mem_zip_parameters {rule : Rule} {base : Nat} {arguments : Pattern} {term : Term}
    {parameter : Variable} :
    (term, parameter) ∈ arguments.zip (rule.parameters base) ↔
      ∃ position, position < rule.arity ∧ arguments[position]? = some term ∧
        parameter = ⟨base + position⟩ := by
  simp only [List.mem_iff_getElem?, List.getElem?_zip_eq_some, parameters, List.getElem?_map,
    Option.map_eq_some_iff]
  constructor
  · rintro ⟨position, found, index, inRange, rfl⟩
    rw [List.getElem?_eq_some_iff] at inRange
    obtain ⟨bound, rfl⟩ := inRange
    simp only [List.length_range] at bound
    exact ⟨position, bound, found, by simp⟩
  · rintro ⟨position, bound, found, rfl⟩
    exact ⟨position, found, position, by simp [bound], rfl⟩

/-- A parameter stands at one position only. -/
theorem argument_unique {rule : Rule} {base : Nat} {arguments : Pattern}
    {first second : Term} {parameter : Variable}
    (firstMember : (first, parameter) ∈ arguments.zip (rule.parameters base))
    (secondMember : (second, parameter) ∈ arguments.zip (rule.parameters base)) :
    first = second := by
  obtain ⟨position, _, firstFound, rfl⟩ := mem_zip_parameters.1 firstMember
  obtain ⟨other, _, secondFound, same⟩ := mem_zip_parameters.1 secondMember
  have samePosition : position = other := by
    simpa only [Variable.mk.injEq, Nat.add_left_cancel_iff] using same
  subst samePosition
  rw [firstFound] at secondFound
  exact Option.some.inj secondFound

/-- The argument at the position of a parameter. -/
def argumentAt? (arguments : Pattern) (base : Nat) (parameter : Variable) : Option Term :=
  if base ≤ parameter.id then arguments[parameter.id - base]? else none

theorem argumentAt?_eq_some {rule : Rule} {base : Nat} {arguments : Pattern} {term : Term}
    {parameter : Variable}
    (member : (term, parameter) ∈ arguments.zip (rule.parameters base)) :
    argumentAt? arguments base parameter = some term := by
  obtain ⟨position, _, found, rfl⟩ := mem_zip_parameters.1 member
  simp only [argumentAt?, Nat.le_add_right, if_true, Nat.add_sub_cancel_left]
  exact found

/-! ## Entering a call -/

/-- The values that a call gives to parameters. -/
def concreteBindings (arguments : Pattern) (parameters : List Variable) :
    List (Variable × Value) :=
  (arguments.zip parameters).filterMap fun position =>
    position.1.value?.map fun constant => (position.2, constant)

theorem mem_concreteBindings {arguments : Pattern} {parameters : List Variable}
    {parameter : Variable} {constant : Value} :
    (parameter, constant) ∈ concreteBindings arguments parameters ↔
      (Term.value constant, parameter) ∈ arguments.zip parameters := by
  simp only [concreteBindings, List.mem_filterMap, Option.map_eq_some_iff, Prod.exists,
    Prod.mk.injEq]
  constructor
  · rintro ⟨term, other, member, known, isValue, rfl, rfl⟩
    cases term with
    | value found =>
        simp only [Term.value?, Option.some.injEq] at isValue
        subst isValue
        exact member
    | var unknown => cases isValue
    | wildcard => cases isValue
  · intro member
    exact ⟨_, _, member, constant, rfl, rfl, rfl⟩

theorem bindConcrete_eq_bindAll (arguments : Pattern) (parameters : List Variable)
    (env : Environment) :
    bindConcrete arguments parameters env =
      env.bindAll (concreteBindings arguments parameters) := by
  induction arguments generalizing parameters env with
  | nil => simp [bindConcrete, concreteBindings, Environment.bindAll]
  | cons term terms inductionHypothesis =>
      cases parameters with
      | nil => cases term <;> simp [bindConcrete, concreteBindings, Environment.bindAll]
      | cons parameter rest =>
          cases term with
          | value constant =>
              cases bound : env.bind parameter constant <;>
                simp [bindConcrete, bound, inductionHypothesis, concreteBindings, Term.value?,
                  Environment.bindAll]
          | var unknown =>
              simp [bindConcrete, inductionHypothesis, concreteBindings, Term.value?]
          | wildcard =>
              simp [bindConcrete, inductionHypothesis, concreteBindings, Term.value?]

/-- The environment in which the body of a called rule starts. -/
def entry (rule : Rule) (arguments : Pattern) (base : Nat) : Environment :=
  (bindConcrete arguments (rule.parameters base) .empty).getD .empty

/-- Every call can be entered. -/
theorem bindConcrete_parameters (rule : Rule) (arguments : Pattern) (base : Nat) :
    bindConcrete arguments (rule.parameters base) .empty = some (rule.entry arguments base) := by
  let values : Assignment := fun parameter =>
    ((argumentAt? arguments base parameter).bind Term.value?).getD default
  have agree : ∀ binding ∈ concreteBindings arguments (rule.parameters base),
      values binding.1 = binding.2 := by
    rintro ⟨parameter, constant⟩ member
    simp only [values, argumentAt?_eq_some (mem_concreteBindings.1 member), Option.bind_some,
      Term.value?, Option.getD_some]
  obtain ⟨start, bound, _⟩ :=
    Environment.exists_bindAll_within (Environment.within_empty values) agree
  rw [entry, bindConcrete_eq_bindAll, bound]
  rfl

theorem get?_entry {rule : Rule} {arguments : Pattern} {base : Nat} {parameter : Variable}
    {constant : Value} :
    (rule.entry arguments base).get? parameter = some constant ↔
      (Term.value constant, parameter) ∈ arguments.zip (rule.parameters base) := by
  have bound := bindConcrete_parameters rule arguments base
  rw [bindConcrete_eq_bindAll, Environment.bindAll_eq_some_iff] at bound
  rw [bound, Environment.get?_empty, mem_concreteBindings]
  simp

/-- A position that is open gives its parameter no value when the body is entered. -/
theorem get?_entry_of_var {rule : Rule} {arguments : Pattern} {base : Nat} {parameter : Variable}
    {unknown : Variable}
    (paired : (Term.var unknown, parameter) ∈ arguments.zip (rule.parameters base)) :
    (rule.entry arguments base).get? parameter = none := by
  cases found : (rule.entry arguments base).get? parameter with
  | none => rfl
  | some constant => cases argument_unique (get?_entry.1 found) paired

/-- The concrete arguments of a call have their values in every answer of the body. -/
theorem value_eq_of_answer {rule : Rule} {arguments : Pattern} {base : Nat}
    {answer : Environment} {parameter : Variable} {constant value : Value}
    (entered : answer.Extends (rule.entry arguments base))
    (paired : (Term.value constant, parameter) ∈ arguments.zip (rule.parameters base))
    (answered : answer.get? parameter = some value) : constant = value := by
  have found := entered parameter constant (get?_entry.2 paired)
  rw [answered] at found
  exact (Option.some.inj found).symm

end Rule

/-! ## Returning from a call -/

namespace Pattern

/-- What an answer of a body binds in the environment of the caller. -/
def returned (answer : Environment) (arguments : Pattern) (parameters : List Variable) :
    List (Variable × Value) :=
  (arguments.zip parameters).filterMap fun position =>
    position.1.unknown?.bind fun unknown =>
      (answer.get? position.2).map fun value => (unknown, value)

theorem mem_returned {answer : Environment} {arguments : Pattern} {parameters : List Variable}
    {unknown : Variable} {value : Value} :
    (unknown, value) ∈ returned answer arguments parameters ↔
      ∃ parameter, (Term.var unknown, parameter) ∈ arguments.zip parameters ∧
        answer.get? parameter = some value := by
  simp only [returned, List.mem_filterMap, Option.bind_eq_some_iff, Option.map_eq_some_iff,
    Prod.exists, Prod.mk.injEq]
  constructor
  · rintro ⟨term, parameter, member, known, isVariable, found, answered, rfl, rfl⟩
    cases term with
    | var written =>
        simp only [Term.unknown?, Option.some.injEq] at isVariable
        subst isVariable
        exact ⟨parameter, member, answered⟩
    | value constant => cases isVariable
    | wildcard => cases isVariable
  · rintro ⟨parameter, member, answered⟩
    exact ⟨_, parameter, member, unknown, rfl, value, answered, rfl, rfl⟩

theorem bindBack_eq_bindAll (answer : Environment) (arguments : Pattern)
    (parameters : List Variable) (env : Environment) :
    bindBack answer arguments parameters env =
      env.bindAll (returned answer arguments parameters) := by
  induction arguments generalizing parameters env with
  | nil => simp [bindBack, returned, Environment.bindAll]
  | cons term terms inductionHypothesis =>
      cases parameters with
      | nil => cases term <;> simp [bindBack, returned, Environment.bindAll]
      | cons parameter rest =>
          cases term with
          | value constant =>
              simp [bindBack, inductionHypothesis, returned, Term.unknown?]
          | wildcard =>
              simp [bindBack, inductionHypothesis, returned, Term.unknown?]
          | var unknown =>
              cases answered : answer.get? parameter with
              | none =>
                  simp [bindBack, answered, inductionHypothesis, returned, Term.unknown?]
              | some value =>
                  cases bound : env.bind unknown value <;>
                    simp [bindBack, answered, bound, inductionHypothesis, returned,
                      Term.unknown?, Environment.bindAll]

theorem extends_of_bindBack {answer env extended : Environment} {arguments : Pattern}
    {parameters : List Variable}
    (success : bindBack answer arguments parameters env = some extended) :
    extended.Extends env := by
  rw [bindBack_eq_bindAll] at success
  exact Environment.extends_of_bindAll success

theorem over_of_bindBack {admitted : Variable → Prop} {answer env extended : Environment}
    {arguments : Pattern} {parameters : List Variable}
    (argumentsOver : Pattern.Over admitted arguments) (envOver : env.Over admitted)
    (success : bindBack answer arguments parameters env = some extended) :
    extended.Over admitted := by
  rw [bindBack_eq_bindAll] at success
  refine envOver.bindAll ?_ success
  rintro ⟨unknown, value⟩ member
  obtain ⟨parameter, position, _⟩ := mem_returned.1 member
  exact argumentsOver _ (List.of_mem_zip position).1 unknown rfl

end Pattern

end GroundLogic
