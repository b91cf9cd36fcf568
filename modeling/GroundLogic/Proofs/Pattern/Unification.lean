import GroundLogic.Proofs.Environment.Union
import GroundLogic.Search

/-!
# Unification as a union of bindings

Unifying a pattern with a tuple, giving the parameters of a rule their values and binding the
answers of a body back all add a list of bindings that can be read off the positions.  What such a
list holds is said position by position, over the pairs that `List.zip` makes of two lists.
-/

namespace GroundLogic

namespace Pattern

/-! ## Patterns and tuples -/

/-- What unification with a tuple has to bind. -/
def bindings (pattern : Pattern) (tuple : Tuple) : List (Variable × Value) :=
  (pattern.zip tuple).filterMap fun position =>
    position.1.unknown?.map fun unknown => (unknown, position.2)

/-- Wherever the pattern holds a value, so does the tuple, as far as both reach. -/
def Agrees (pattern : Pattern) (tuple : Tuple) : Prop :=
  ∀ constant stored, (Term.value constant, stored) ∈ pattern.zip tuple → constant = stored

theorem mem_bindings {pattern : Pattern} {tuple : Tuple} {unknown : Variable} {value : Value} :
    (unknown, value) ∈ pattern.bindings tuple ↔ (Term.var unknown, value) ∈ pattern.zip tuple := by
  simp only [bindings, List.mem_filterMap, Option.map_eq_some_iff, Prod.exists, Prod.mk.injEq]
  constructor
  · rintro ⟨term, stored, member, found, isVariable, rfl, rfl⟩
    cases term with
    | var known =>
        simp only [Term.unknown?, Option.some.injEq] at isVariable
        subst isVariable
        exact member
    | value constant => cases isVariable
    | wildcard => cases isVariable
  · intro member
    exact ⟨_, _, member, unknown, rfl, rfl, rfl⟩

theorem unify_eq_some_iff {pattern : Pattern} {tuple : Tuple} {env extended : Environment} :
    pattern.unify tuple env = some extended ↔
      pattern.Agrees tuple ∧ env.bindAll (pattern.bindings tuple) = some extended := by
  induction pattern generalizing tuple env with
  | nil => simp [unify, Agrees, bindings, Environment.bindAll]
  | cons term terms inductionHypothesis =>
      cases tuple with
      | nil => simp [unify, Agrees, bindings, Environment.bindAll]
      | cons stored values =>
          cases term with
          | value constant =>
              by_cases same : constant = stored
              · simp [unify, Term.unify, same, inductionHypothesis, Agrees, bindings,
                  Term.unknown?, or_imp, forall_and]
              · simp [unify, Term.unify, same, Agrees, or_imp, forall_and]
          | var unknown =>
              cases bound : env.bind unknown stored with
              | none =>
                  simp [unify, Term.unify, bound, bindings, Term.unknown?, Environment.bindAll]
              | some middle =>
                  simp [unify, Term.unify, bound, inductionHypothesis, Agrees, bindings,
                    Term.unknown?, Environment.bindAll]
          | wildcard =>
              simp [unify, Term.unify, inductionHypothesis, Agrees, bindings, Term.unknown?]

theorem admits_iff {pattern : Pattern} {tuple : Tuple} :
    pattern.admits tuple = true ↔ pattern.length = tuple.length ∧ pattern.Agrees tuple := by
  induction pattern generalizing tuple with
  | nil => cases tuple <;> simp [admits, Agrees]
  | cons term terms inductionHypothesis =>
      cases tuple with
      | nil => simp [admits]
      | cons stored values =>
          cases term <;>
            simp [admits, Term.admits, inductionHypothesis, Agrees, or_imp, forall_and,
              and_left_comm]

theorem denotes_iff {assignment : Assignment} {pattern : Pattern} {tuple : Tuple} :
    pattern.Denotes assignment tuple ↔
      pattern.length = tuple.length ∧
        ∀ position ∈ pattern.zip tuple, position.1.Denotes assignment position.2 := by
  induction pattern generalizing tuple with
  | nil => cases tuple <;> simp [Denotes]
  | cons term terms inductionHypothesis =>
      cases tuple with
      | nil => simp [Denotes]
      | cons stored values => simp [Denotes, inductionHypothesis, and_left_comm]

/-- The same for values that other items give. -/
theorem denotes_map_iff {Item : Type} {assignment : Assignment} {pattern : Pattern}
    {items : List Item} {value : Item → Value} :
    pattern.Denotes assignment (items.map value) ↔
      pattern.length = items.length ∧
        ∀ term item, (term, item) ∈ pattern.zip items → term.Denotes assignment (value item) := by
  rw [denotes_iff, List.length_map, List.zip_map_right]
  simp only [List.mem_map, Prod.map_apply, id_eq, Prod.forall, Prod.exists, Prod.mk.injEq,
    forall_exists_index, and_imp]
  constructor
  · rintro ⟨sameLength, positions⟩
    exact ⟨sameLength, fun term item member => positions _ _ term item member rfl rfl⟩
  · rintro ⟨sameLength, positions⟩
    refine ⟨sameLength, ?_⟩
    rintro _ _ term item member rfl rfl
    exact positions term item member

@[simp]
theorem length_narrow (env : Environment) (pattern : Pattern) :
    (pattern.narrow env).length = pattern.length :=
  List.length_map ..

/-- What narrowing leaves of a position. -/
theorem mem_zip_narrow {Item : Type} {env : Environment} {pattern : Pattern} {items : List Item}
    {term : Term} {item : Item} :
    (term, item) ∈ (pattern.narrow env).zip items ↔
      ∃ written, (written, item) ∈ pattern.zip items ∧ written.narrow env = term := by
  simp only [narrow, List.zip_map_left, List.mem_map, Prod.map_apply, id_eq, Prod.mk.injEq,
    Prod.exists]
  constructor
  · rintro ⟨written, other, member, narrowed, rfl⟩
    exact ⟨written, member, narrowed⟩
  · rintro ⟨written, member, narrowed⟩
    exact ⟨written, item, member, narrowed, rfl⟩

end Pattern

namespace Term

theorem narrow_eq_value_iff {env : Environment} {term : Term} {constant : Value} :
    term.narrow env = .value constant ↔
      term = .value constant ∨
        ∃ unknown, term = .var unknown ∧ env.get? unknown = some constant := by
  cases term with
  | value known => simp [narrow]
  | wildcard => simp [narrow]
  | var unknown =>
      simp only [narrow]
      cases found : env.get? unknown <;> simp [found]

theorem narrow_eq_var_iff {env : Environment} {term : Term} {unknown : Variable} :
    term.narrow env = .var unknown ↔ term = .var unknown ∧ env.get? unknown = none := by
  cases term with
  | value known => simp [narrow]
  | wildcard => simp [narrow]
  | var known =>
      simp only [narrow]
      cases found : env.get? known with
      | none =>
          simp only [var.injEq]
          constructor
          · rintro rfl
            exact ⟨rfl, found⟩
          · exact And.left
      | some value =>
          simp only [reduceCtorEq, var.injEq, false_iff, not_and]
          rintro rfl
          rw [found]
          exact Option.some_ne_none value

@[simp]
theorem denotes_value_iff {assignment : Assignment} {constant stored : Value} :
    Denotes assignment (.value constant) stored ↔ constant = stored := by
  constructor
  · rintro ⟨⟩
    rfl
  · rintro rfl
    exact .value constant

@[simp]
theorem denotes_var_iff {assignment : Assignment} {unknown : Variable} {stored : Value} :
    Denotes assignment (.var unknown) stored ↔ assignment unknown = stored := by
  constructor
  · rintro ⟨⟩
    rfl
  · rintro rfl
    exact .var unknown

end Term

namespace Pattern

/-! ## Narrowed positions -/

/-- A value in a narrowed pattern was written or is that of a bound variable. -/
theorem value_mem_zip_narrow {Item : Type} {env : Environment} {pattern : Pattern}
    {items : List Item} {constant : Value} {item : Item} :
    (Term.value constant, item) ∈ (pattern.narrow env).zip items ↔
      (Term.value constant, item) ∈ pattern.zip items ∨
        ∃ unknown, (Term.var unknown, item) ∈ pattern.zip items ∧
          env.get? unknown = some constant := by
  rw [mem_zip_narrow]
  constructor
  · rintro ⟨written, member, narrowed⟩
    rcases Term.narrow_eq_value_iff.1 narrowed with rfl | ⟨unknown, rfl, known⟩
    · exact Or.inl member
    · exact Or.inr ⟨unknown, member, known⟩
  · rintro (member | ⟨unknown, member, known⟩)
    · exact ⟨_, member, rfl⟩
    · exact ⟨_, member, Term.narrow_eq_value_iff.2 (Or.inr ⟨unknown, rfl, known⟩)⟩

/-- The variables in a narrowed pattern are those that are not bound. -/
theorem var_mem_zip_narrow {Item : Type} {env : Environment} {pattern : Pattern}
    {items : List Item} {unknown : Variable} {item : Item} :
    (Term.var unknown, item) ∈ (pattern.narrow env).zip items ↔
      (Term.var unknown, item) ∈ pattern.zip items ∧ env.get? unknown = none := by
  rw [mem_zip_narrow]
  constructor
  · rintro ⟨written, member, narrowed⟩
    obtain ⟨rfl, unbound⟩ := Term.narrow_eq_var_iff.1 narrowed
    exact ⟨member, unbound⟩
  · rintro ⟨member, unbound⟩
    exact ⟨_, member, Term.narrow_eq_var_iff.2 ⟨rfl, unbound⟩⟩

/-- What is narrowed once is as narrow as it gets. -/
theorem narrow_narrow (env : Environment) (pattern : Pattern) :
    (pattern.narrow env).narrow env = pattern.narrow env := by
  rw [narrow, narrow, List.map_map]
  apply List.map_congr_left
  intro term _
  cases term with
  | value constant => rfl
  | wildcard => rfl
  | var unknown =>
      rw [Function.comp_apply]
      cases found : env.get? unknown with
      | some known => simp only [Term.narrow, found]
      | none => simp only [Term.narrow, found]

/-! ## Facts -/

/-- The environment that a tuple adds to the answers of a fact, if any. -/
def answer? (pattern narrowed : Pattern) (env : Environment) (tuple : Tuple) :
    Option Environment :=
  if narrowed.admits tuple then pattern.unify tuple env else none

/-- The answers of a fact over some tuples. -/
def answers (pattern narrowed : Pattern) (env : Environment) (tuples : List Tuple) :
    List Environment :=
  tuples.filterMap (answer? pattern narrowed env)

theorem nextMatch_cons_of_none {pattern narrowed : Pattern} {env : Environment} {tuple : Tuple}
    (answered : answer? pattern narrowed env tuple = none) (rest : List Tuple) :
    nextMatch pattern narrowed env (tuple :: rest) = nextMatch pattern narrowed env rest := by
  simp only [nextMatch]
  by_cases admitted : narrowed.admits tuple = true
  · simp only [answer?, admitted, if_true] at answered
    simp only [admitted, if_true, answered]
  · simp only [if_neg admitted]

theorem nextMatch_cons_of_some {pattern narrowed : Pattern} {env extended : Environment}
    {tuple : Tuple} (answered : answer? pattern narrowed env tuple = some extended)
    (rest : List Tuple) :
    nextMatch pattern narrowed env (tuple :: rest) = some (extended, rest) := by
  obtain ⟨admitted, unified⟩ := Option.ite_none_right_eq_some.1 answered
  simp only [nextMatch, admitted, if_true, unified]

theorem nextMatch_eq_none_iff {pattern narrowed : Pattern} {env : Environment}
    {tuples : List Tuple} :
    nextMatch pattern narrowed env tuples = none ↔ answers pattern narrowed env tuples = [] := by
  induction tuples with
  | nil => simp [nextMatch, answers]
  | cons tuple rest inductionHypothesis =>
      rw [answers, List.filterMap_cons]
      cases answered : answer? pattern narrowed env tuple with
      | none =>
          rw [nextMatch_cons_of_none answered]
          exact inductionHypothesis
      | some extended => simp [nextMatch_cons_of_some answered]

theorem answers_append (pattern narrowed : Pattern) (env : Environment)
    (early late : List Tuple) :
    answers pattern narrowed env (early ++ late) =
      answers pattern narrowed env early ++ answers pattern narrowed env late :=
  List.filterMap_append ..

/-- The tuples up to the next match give one answer. -/
theorem exists_of_nextMatch {pattern narrowed : Pattern} {env extended : Environment}
    {tuples rest : List Tuple}
    (found : nextMatch pattern narrowed env tuples = some (extended, rest)) :
    ∃ passed, tuples = passed ++ rest ∧ answers pattern narrowed env passed = [extended] := by
  induction tuples with
  | nil => cases found
  | cons tuple others inductionHypothesis =>
      cases answered : answer? pattern narrowed env tuple with
      | none =>
          rw [nextMatch_cons_of_none answered] at found
          obtain ⟨passed, split, once⟩ := inductionHypothesis found
          refine ⟨tuple :: passed, congrArg (tuple :: ·) split, ?_⟩
          simp only [answers, List.filterMap_cons, answered]
          exact once
      | some other =>
          rw [nextMatch_cons_of_some answered] at found
          cases found
          refine ⟨[tuple], rfl, ?_⟩
          simp only [answers, List.filterMap_cons, answered, List.filterMap_nil]

theorem extends_of_unify {pattern : Pattern} {tuple : Tuple} {env extended : Environment}
    (unified : pattern.unify tuple env = some extended) : extended.Extends env :=
  Environment.extends_of_bindAll (unify_eq_some_iff.1 unified).2

/-- Each answer of a fact comes from a tuple. -/
theorem exists_of_mem_answers {pattern narrowed : Pattern} {env answer : Environment}
    {tuples : List Tuple} (member : answer ∈ answers pattern narrowed env tuples) :
    ∃ tuple ∈ tuples, narrowed.admits tuple = true ∧ pattern.unify tuple env = some answer := by
  obtain ⟨tuple, stored, answered⟩ := List.mem_filterMap.1 member
  exact ⟨tuple, stored, Option.ite_none_right_eq_some.1 answered⟩

/-- A match comes from a tuple. -/
theorem exists_unify_of_nextMatch {pattern narrowed : Pattern} {env extended : Environment}
    {tuples rest : List Tuple}
    (found : nextMatch pattern narrowed env tuples = some (extended, rest)) :
    ∃ tuple, pattern.unify tuple env = some extended := by
  obtain ⟨passed, _, once⟩ := exists_of_nextMatch found
  have listed : extended ∈ answers pattern narrowed env passed := by
    rw [once]
    exact List.mem_cons_self ..
  obtain ⟨tuple, _, _, unified⟩ := exists_of_mem_answers listed
  exact ⟨tuple, unified⟩

theorem extends_of_nextMatch {pattern narrowed : Pattern} {env extended : Environment}
    {tuples rest : List Tuple}
    (found : nextMatch pattern narrowed env tuples = some (extended, rest)) :
    extended.Extends env := by
  obtain ⟨tuple, unified⟩ := exists_unify_of_nextMatch found
  exact extends_of_unify unified

theorem over_of_unify {admitted : Variable → Prop} {pattern : Pattern} {tuple : Tuple}
    {env extended : Environment} (patternOver : Pattern.Over admitted pattern)
    (envOver : env.Over admitted) (unified : pattern.unify tuple env = some extended) :
    extended.Over admitted := by
  refine envOver.bindAll ?_ (unify_eq_some_iff.1 unified).2
  rintro ⟨unknown, value⟩ member
  have position := (List.of_mem_zip (mem_bindings.1 member)).1
  exact patternOver _ position unknown rfl

theorem over_of_nextMatch {admitted : Variable → Prop} {pattern narrowed : Pattern}
    {env extended : Environment} {tuples rest : List Tuple}
    (patternOver : Pattern.Over admitted pattern) (envOver : env.Over admitted)
    (found : nextMatch pattern narrowed env tuples = some (extended, rest)) :
    extended.Over admitted := by
  obtain ⟨tuple, unified⟩ := exists_unify_of_nextMatch found
  exact over_of_unify patternOver envOver unified

/-- The scan with a narrowed pattern keeps every tuple of the right length that unifies. -/
theorem answer?_narrow_eq_some_iff {pattern : Pattern} {env extended : Environment}
    {tuple : Tuple} :
    answer? pattern (pattern.narrow env) env tuple = some extended ↔
      pattern.length = tuple.length ∧ pattern.unify tuple env = some extended := by
  simp only [answer?, Option.ite_none_right_eq_some]
  constructor
  · rintro ⟨admitted, unified⟩
    exact ⟨(length_narrow env pattern).symm.trans (admits_iff.1 admitted).1, unified⟩
  · rintro ⟨sameLength, unified⟩
    refine ⟨admits_iff.2 ⟨(length_narrow env pattern).trans sameLength, ?_⟩, unified⟩
    obtain ⟨agrees, bound⟩ := unify_eq_some_iff.1 unified
    intro constant stored position
    rcases value_mem_zip_narrow.1 position with member | ⟨unknown, member, known⟩
    · exact agrees constant stored member
    · have before := Environment.extends_of_bindAll bound unknown constant known
      rw [Environment.get?_of_bindAll bound (mem_bindings.2 member)] at before
      exact (Option.some.inj before).symm

/-- Whatever makes an answer of a fact true makes the pattern denote the tuple. -/
theorem denotes_of_unify {assignment : Assignment} {pattern : Pattern} {tuple : Tuple}
    {env extended : Environment} (sameLength : pattern.length = tuple.length)
    (unified : pattern.unify tuple env = some extended)
    (within : extended.Within assignment) : pattern.Denotes assignment tuple := by
  obtain ⟨agrees, bound⟩ := unify_eq_some_iff.1 unified
  refine denotes_iff.2 ⟨sameLength, ?_⟩
  rintro ⟨term, stored⟩ member
  cases term with
  | value constant =>
      exact Term.denotes_value_iff.2 (agrees constant stored member)
  | var unknown =>
      have value := Environment.get?_of_bindAll bound (mem_bindings.2 member)
      exact Term.denotes_var_iff.2 (within unknown stored value)
  | wildcard => exact .wildcard stored

theorem exists_unify_of_denotes {assignment : Assignment} {pattern : Pattern} {tuple : Tuple}
    {env : Environment} (denotes : pattern.Denotes assignment tuple)
    (within : env.Within assignment) :
    ∃ extended, pattern.unify tuple env = some extended ∧ extended.Within assignment := by
  obtain ⟨_, positions⟩ := denotes_iff.1 denotes
  have agrees : pattern.Agrees tuple := by
    intro constant stored member
    exact Term.denotes_value_iff.1 (positions _ member)
  have values : ∀ binding ∈ pattern.bindings tuple, assignment binding.1 = binding.2 := by
    rintro ⟨unknown, value⟩ member
    exact Term.denotes_var_iff.1 (positions _ (mem_bindings.1 member))
  obtain ⟨extended, bound, extendedWithin⟩ := Environment.exists_bindAll_within within values
  exact ⟨extended, unify_eq_some_iff.2 ⟨agrees, bound⟩, extendedWithin⟩

end Pattern

end GroundLogic
