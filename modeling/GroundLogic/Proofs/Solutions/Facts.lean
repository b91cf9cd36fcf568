import GroundLogic.Proofs.Goal.Reach
import GroundLogic.Proofs.Solutions.Endings
import GroundLogic.Proofs.State.Storage

/-!
# Facts

A fact is evaluated with two patterns: tuples are sorted out with the narrowed one, which binds
nothing and does not compare the positions of a repeated variable, and those that are left are
unified with the pattern as it stands.  What comes of this is said without any search: every stored
tuple that the pattern equals under some extension of the environment gives the least such
extension, and no other tuple gives anything (`Goal.yields_fact`).
-/

namespace GroundLogic

/-! ## Patterns that equal tuples -/

/-- Under an environment a term equals a value; the wildcard equals any value. -/
inductive Term.Equals (env : Environment) : Term → Value → Prop
  | value (constant : Value) : Equals env (.value constant) constant
  | var {unknown : Variable} {constant : Value} (bound : env.get? unknown = some constant) :
      Equals env (.var unknown) constant
  | wildcard (constant : Value) : Equals env .wildcard constant

namespace Pattern

/-- Under an environment a pattern equals a tuple, position by position. -/
def Equals (env : Environment) : Pattern → Tuple → Prop :=
  List.Forall₂ (Term.Equals env)

/-- Of the extensions of an environment under which a pattern equals a tuple, the least. -/
structure LeastExtension (pattern : Pattern) (tuple : Tuple) (env extended : Environment) :
    Prop where
  extension : extended.Extends env
  equal : Equals extended pattern tuple
  least : ∀ other : Environment, other.Extends env → Equals other pattern tuple →
    other.Extends extended

/-- What a tuple gives when the pattern is unified with it as it stands.  A tuple of another length
gives nothing. -/
def extension? (pattern : Pattern) (env : Environment) (tuple : Tuple) : Option Environment :=
  if tuple.length = pattern.length then pattern.unify tuple env else none

variable {pattern : Pattern} {tuple : Tuple} {env extended other : Environment}

/-- A pattern equals a tuple of its length that agrees with its values, under an environment that
holds what unification has to bind. -/
theorem equals_iff :
    Equals env pattern tuple ↔
      tuple.length = pattern.length ∧ pattern.Agrees tuple ∧
        ∀ binding ∈ pattern.bindings tuple, env.get? binding.1 = some binding.2 := by
  rw [Equals, List.forall₂_iff_zip]
  constructor
  · intro equal
    obtain ⟨sameLength, positions⟩ := equal
    refine ⟨sameLength.symm, ?_, ?_⟩
    · intro constant stored member
      cases positions member with
      | value => rfl
    · intro binding member
      cases positions (mem_bindings.1 member) with
      | var bound => exact bound
  · intro equal
    obtain ⟨sameLength, agrees, bound⟩ := equal
    refine ⟨sameLength.symm, fun {term stored} member => ?_⟩
    cases term with
    | value constant =>
        rw [agrees constant stored member]
        exact .value stored
    | var unknown => exact .var (bound (unknown, stored) (mem_bindings.2 member))
    | wildcard => exact .wildcard stored

/-- Unification finds an extension if there is one, and it is contained in all of them. -/
theorem exists_extension?_of_equals (extension : other.Extends env)
    (equal : Equals other pattern tuple) :
    ∃ extended, pattern.extension? env tuple = some extended ∧ other.Extends extended := by
  obtain ⟨sameLength, agrees, bound⟩ := equals_iff.1 equal
  -- Binding cannot fail, because all values come from the one larger environment.
  have values : ∀ binding ∈ pattern.bindings tuple, other.assign binding.1 = binding.2 :=
    fun binding member => Environment.assign_eq (bound binding member)
  obtain ⟨extended, bindAll, _⟩ :=
    Environment.exists_bindAll_within (Environment.within_assign extension) values
  refine ⟨extended, ?_, fun unknown value found => ?_⟩
  · rw [extension?, if_pos sameLength]
    exact unify_eq_some_iff.2 ⟨agrees, bindAll⟩
  · rcases (Environment.bindAll_eq_some_iff.1 bindAll unknown value).1 found with before | member
    · exact extension unknown value before
    · exact bound (unknown, value) member

theorem equals_of_extension? (found : pattern.extension? env tuple = some extended) :
    extended.Extends env ∧ Equals extended pattern tuple := by
  obtain ⟨sameLength, unified⟩ := Option.ite_none_right_eq_some.1 found
  obtain ⟨agrees, bindAll⟩ := unify_eq_some_iff.1 unified
  refine ⟨extends_of_unify unified, equals_iff.2 ⟨sameLength, agrees, ?_⟩⟩
  exact fun binding member => Environment.get?_of_bindAll bindAll member

/-- A tuple gives an extension exactly when the pattern equals it under some. -/
theorem isSome_extension?_iff :
    (pattern.extension? env tuple).isSome ↔
      ∃ larger : Environment, larger.Extends env ∧ Equals larger pattern tuple := by
  rw [Option.isSome_iff_exists]
  constructor
  · intro given
    obtain ⟨extended, found⟩ := given
    exact ⟨extended, equals_of_extension? found⟩
  · intro possible
    obtain ⟨larger, extension, equal⟩ := possible
    obtain ⟨extended, found, _⟩ := exists_extension?_of_equals extension equal
    exact ⟨extended, found⟩

/-- What a tuple gives is the least extension under which the pattern equals it. -/
theorem extension?_eq_some_iff :
    pattern.extension? env tuple = some extended ↔
      LeastExtension pattern tuple env extended := by
  constructor
  · intro found
    obtain ⟨extension, equal⟩ := equals_of_extension? found
    refine ⟨extension, equal, fun other otherExtension otherEqual => ?_⟩
    obtain ⟨smallest, again, contained⟩ := exists_extension?_of_equals otherExtension otherEqual
    rw [found] at again
    cases again
    exact contained
  · intro least
    obtain ⟨smallest, found, contained⟩ := exists_extension?_of_equals least.extension least.equal
    obtain ⟨extension, equal⟩ := equals_of_extension? found
    have same : smallest = extended := Environment.ext_bindings fun unknown value =>
      ⟨contained unknown value, least.least smallest extension equal unknown value⟩
    rw [found, same]

/-- Sorting tuples out with the narrowed pattern loses nothing. -/
theorem answers_narrow (pattern : Pattern) (env : Environment) (tuples : List Tuple) :
    answers pattern (pattern.narrow env) env tuples = tuples.filterMap (pattern.extension? env) := by
  apply List.filterMap_congr
  intro tuple _
  apply Option.ext
  intro extended
  rw [answer?_narrow_eq_some_iff, extension?, Option.ite_none_right_eq_some,
    eq_comm (a := pattern.length)]

end Pattern

/-! ## Scans -/

namespace Search

variable {pattern narrowed : Pattern} {env : Environment} {tuples : List Tuple} {state : State}

/-- A pull from a scan leaves a scan and the state as it was. -/
theorem exists_pull_scan (fuel : Nat) (pattern narrowed : Pattern) (env : Environment)
    (tuples : List Tuple) (state : State) :
    ∃ outcome rest, (Search.scan pattern narrowed env tuples).pull fuel state =
      (outcome, .scan pattern narrowed env rest, state) := by
  cases fuel with
  | zero => exact ⟨.unfinished, tuples, rfl⟩
  | succ fuel =>
      simp only [pull, step]
      cases pattern.nextMatch narrowed env tuples with
      | none => exact ⟨.ended, tuples, rfl⟩
      | some found => exact ⟨.found found.1, found.2, rfl⟩

theorem take_scan_state (fuel wanted : Nat) (pattern narrowed : Pattern) (env : Environment)
    (tuples : List Tuple) (state : State) :
    ((Search.scan pattern narrowed env tuples).take fuel wanted state).2.2 = state := by
  induction wanted generalizing tuples with
  | zero => rfl
  | succ wanted inductionHypothesis =>
      obtain ⟨outcome, rest, pulled⟩ := exists_pull_scan fuel pattern narrowed env tuples state
      rw [take_succ, pulled]
      cases outcome with
      | found answer => exact inductionHypothesis rest
      | ended => rfl
      | unfinished => rfl

/-- One step is enough for each answer of a scan. -/
theorem take_scan (fuel wanted : Nat) (pattern narrowed : Pattern) (env : Environment)
    (tuples : List Tuple) (state : State) :
    ((Search.scan pattern narrowed env tuples).take (fuel + 1) wanted state).1 =
      .upTo wanted (Pattern.answers pattern narrowed env tuples) := by
  induction wanted generalizing tuples with
  | zero => rfl
  | succ wanted inductionHypothesis =>
      rw [take_succ]
      simp only [pull, step]
      cases next : pattern.nextMatch narrowed env tuples with
      | none =>
          rw [Pattern.nextMatch_eq_none_iff.1 next]
          rfl
      | some found =>
          obtain ⟨passed, split, once⟩ := Pattern.exists_of_nextMatch next
          rw [split, Pattern.answers_append, once, List.singleton_append, Batch.upTo_cons,
            ← inductionHypothesis]

end Search

/-! ## Fact goals -/

namespace Goal

variable {state : State}

/-- The evaluation of a fact ends.  It gives what the stored tuples give, in their order, when the
pattern is unified with each tuple of its length as it stands; that is, for each tuple that the
pattern equals under some extension of the environment, the least such extension.  A pattern whose
length is not the arity of the relation gives nothing, and nothing that is pulled changes the
state. -/
theorem yields_fact (grows : State.initial.Grows state) (relation : Relation) (pattern : Pattern)
    (env : Environment) :
    Yields (.fact relation pattern) env state
        ((state.table relation).tuples.filterMap (pattern.extension? env)) ∧
      (∀ tuple extended, pattern.extension? env tuple = some extended ↔
        Pattern.LeastExtension pattern tuple env extended) ∧
      (∀ tuple, pattern.extension? env tuple = none ↔
        ∀ larger : Environment, larger.Extends env → ¬ Pattern.Equals larger pattern tuple) ∧
      (state.table relation).tuples.filterMap (pattern.extension? env) =
        ((state.table relation).tuples.filter fun tuple =>
          tuple.length = pattern.length).filterMap (fun tuple => pattern.unify tuple env) ∧
      ((state.table relation).arity ≠ some pattern.length →
        (state.table relation).tuples.filterMap (pattern.extension? env) = []) ∧
      ∀ fuel wanted,
        ((start (.fact relation pattern) env state.database).take fuel wanted state).2.2 =
          state := by
  refine ⟨?_, fun _ _ => Pattern.extension?_eq_some_iff, fun tuple => ?_, ?_, fun otherLength => ?_,
    fun fuel wanted => Search.take_scan_state ..⟩
  · refine ⟨1, fun allowed bound wanted => ?_⟩
    obtain ⟨fuel, rfl⟩ := Nat.exists_eq_add_of_le' bound
    rw [← Pattern.answers_narrow]
    exact Search.take_scan ..
  · rw [← Option.not_isSome_iff_eq_none, Pattern.isSome_extension?_iff]
    simp only [not_exists, not_and]
  · rw [List.filterMap_filter]
    apply List.filterMap_congr
    intro tuple _
    simp only [Pattern.extension?, decide_eq_true_eq]
  · rw [List.filterMap_eq_nil_iff]
    intro tuple stored
    have sized := (grows.keeps relation).sized tuple stored
    have different : tuple.length ≠ pattern.length := by
      intro sameLength
      rw [sized, sameLength] at otherLength
      exact otherLength rfl
    rw [Pattern.extension?, if_neg different]

end Goal

/-- Stretches that were entered one by one; some lead back to where they begin. -/
def Routes.loops : State :=
  (State.initial.insertAll stretch
    [[.symbol "a", .symbol "b"], [.symbol "b", .symbol "b"], [.symbol "b", .symbol "c"],
      [.symbol "c", .symbol "c"]]).2

/-- A variable at both ends of a stretch finds the places with a loop, in the order in which the
loops were entered; if it is known to be `b` beforehand, the loop at `b` only.  A pattern with one
position finds nothing. -/
theorem Goal.yields_fact_loops :
    State.initial.Grows Routes.loops ∧
      Yields (.fact Routes.stretch [.var ⟨1⟩, .var ⟨1⟩]) .empty Routes.loops
        [Routes.destination (.symbol "b"), Routes.destination (.symbol "c")] ∧
      Yields (.fact Routes.stretch [.var ⟨1⟩, .var ⟨1⟩]) (Routes.destination (.symbol "b"))
        Routes.loops [Routes.destination (.symbol "b")] ∧
      Yields (.fact Routes.stretch [.var ⟨1⟩]) .empty Routes.loops [] := by
  have grows : State.initial.Grows Routes.loops := State.grows_insertAll ..
  refine ⟨grows, (yields_fact grows _ _ _).1, (yields_fact grows _ _ _).1, ?_⟩
  obtain ⟨yields, _, _, _, none, _⟩ := yields_fact grows Routes.stretch [.var ⟨1⟩] .empty
  rw [none (by decide)] at yields
  exact yields

end GroundLogic
