import GroundLogic.Proofs.Goal.Consistency
import GroundLogic.Proofs.State.Requests

/-!
# What requests come to

Which arity a relation has and which tuples it stores can be told from the requests alone, without
a store: the first length that is named for a relation is its arity, and the tuples that are offered
to it count as entered as long as they have that length.  `Request.aritiesAfterAll` and
`Request.entries` go through the requests in this way.  One request changes the tables as they say
(`arity_run`, `tuples_run`), hence so does a sequence of requests, and `requests_keep` puts this
together with the journal and the answers for a relation that is new at first.
-/

namespace GroundLogic

instance (arities : Relation → Option Nat) : (atom : Atom) → Decidable (atom.Fits arities)
  | .fact relation pattern => inferInstanceAs (Decidable (arities relation = some pattern.length))
  | .call rule arguments => inferInstanceAs (Decidable (arguments.length = rule.arity))

namespace Request

/-! ## Requests without a store -/

/-- The length that a request names for a relation; of several, the first. -/
def named? (relation : Relation) : Request → Option Nat
  | .insert listed tuple => if listed = relation then some tuple.length else none
  | .insertAll listed tuples => if listed = relation then tuples.head?.map List.length else none
  | .query listed pattern => if listed = relation then some pattern.length else none
  | .contains listed pattern => if listed = relation then some pattern.length else none
  | .count listed pattern => if listed = relation then some pattern.length else none
  | .validate goal => goal.atoms.findSome? (Atom.arity? relation)

/-- The tuples that a request offers to a relation. -/
def offered (relation : Relation) : Request → List Tuple
  | .insert listed tuple => if listed = relation then [tuple] else []
  | .insertAll listed tuples => if listed = relation then tuples else []
  | _ => []

/-- The lengths in a goal count only if all its facts and calls fit, with what is known and with one
another. -/
def Counts (known : Relation → Option Nat) : Request → Prop
  | .validate goal =>
      ∀ atom ∈ goal.atoms, atom.Fits fun relation =>
        (known relation).or (goal.atoms.findSome? (Atom.arity? relation))
  | _ => True

instance (known : Relation → Option Nat) : (request : Request) → Decidable (request.Counts known)
  | .validate goal => List.decidableBAll _ goal.atoms
  | .insert _ _ => .isTrue trivial
  | .insertAll _ _ => .isTrue trivial
  | .query _ _ => .isTrue trivial
  | .contains _ _ => .isTrue trivial
  | .count _ _ => .isTrue trivial

/-- The arities that are known after a request: a length that is named counts where none was
known. -/
def aritiesAfter (known : Relation → Option Nat) (request : Request) : Relation → Option Nat :=
  if request.Counts known then fun relation => (known relation).or (request.named? relation)
  else known

def aritiesAfterAll (known : Relation → Option Nat) (requests : List Request) :
    Relation → Option Nat :=
  requests.foldl aritiesAfter known

/-- The tuples up to the first that has not the arity. -/
def fitting (arity : Option Nat) (tuples : List Tuple) : List Tuple :=
  tuples.takeWhile fun tuple => arity = some tuple.length

/-- The tuples that a request enters into a relation: those that it offers, up to the first that has
not the arity of the relation. -/
def entered (known : Relation → Option Nat) (relation : Relation) (request : Request) :
    List Tuple :=
  fitting (request.aritiesAfter known relation) (request.offered relation)

/-- The tuples that requests enter into a relation, oldest first, with repetitions. -/
def entries (known : Relation → Option Nat) (relation : Relation) : List Request → List Tuple
  | [] => []
  | request :: requests =>
      request.entered known relation ++ entries (request.aritiesAfter known) relation requests

end Request

/-! ## One request -/

namespace State

/-- The arities that are fixed. -/
def arities (state : State) (relation : Relation) : Option Nat :=
  (state.table relation).arity

variable {relation : Relation} {state after : State}

theorem or_of_not_refuses {actual : Nat} (passes : ¬state.Refuses relation actual) :
    (state.table relation).arity.or (some actual) = some actual := by
  cases fixed : (state.table relation).arity with
  | none => rfl
  | some arity =>
      by_cases same : arity = actual
      · rw [same, Option.some_or]
      · exact absurd ⟨arity, fixed, same⟩ passes

theorem or_of_refuses {actual : Nat} (refuses : state.Refuses relation actual)
    (named : Option Nat) :
    (state.table relation).arity.or named = (state.table relation).arity := by
  obtain ⟨arity, fixed, _⟩ := refuses
  rw [fixed, Option.some_or]

/-- A length is named for a relation: it is refused, or it is the arity from then on. -/
def Mentions (relation : Relation) (actual : Nat) (before after : State) : Prop :=
  (before.Refuses relation actual ∧ after = before) ∨
    (¬before.Refuses relation actual ∧ before.Fixes relation actual after)

theorem Mentions.arity {actual : Nat} (mentions : state.Mentions relation actual after)
    (tested : Relation) :
    (after.table tested).arity =
      (state.table tested).arity.or (if relation = tested then some actual else none) := by
  by_cases here : relation = tested
  · subst here
    rw [if_pos rfl]
    rcases mentions with ⟨refuses, same⟩ | ⟨passes, fixes⟩
    · rw [same, or_of_refuses refuses]
    · rw [fixes relation, if_pos rfl, or_of_not_refuses passes]
  · rw [if_neg here, Option.or_none]
    rcases mentions with ⟨_, same⟩ | ⟨_, fixes⟩
    · rw [same]
    · rw [fixes tested, if_neg here]

theorem Mentions.tuples {actual : Nat} (mentions : state.Mentions relation actual after)
    (tested : Relation) : (after.table tested).tuples = (state.table tested).tuples := by
  rcases mentions with ⟨_, same⟩ | ⟨_, fixes⟩
  · rw [same]
  · rw [fixes tested]
    by_cases here : relation = tested
    · rw [if_pos here, here]
    · rw [if_neg here]

theorem mentions_of_reply {Answer : Type} {reply : Except ArityError Answer} {actual : Nat}
    (refusedIff : (∃ error, reply = .error error) ↔ state.Refuses relation actual)
    (unchanged : ∀ error, reply = .error error → after = state)
    (passed : ∀ answer, reply = .ok answer → state.Fixes relation actual after) :
    state.Mentions relation actual after := by
  cases replied : reply with
  | error error => exact Or.inl ⟨refusedIff.1 ⟨error, replied⟩, unchanged error replied⟩
  | ok answer =>
      refine Or.inr ⟨fun refuses => ?_, passed answer replied⟩
      obtain ⟨error, refused⟩ := refusedIff.2 refuses
      cases replied.symm.trans refused

theorem mentions_query (relation : Relation) (pattern : Pattern) (state : State) :
    state.Mentions relation pattern.length ((Request.query relation pattern).run state).2 := by
  apply mentions_of_reply query_refused_iff
  · intro error refused
    simp only [Request.run, refused]
  · intro answer queried
    simp only [Request.run, queried]
    exact (of_query queried).1

theorem mentions_contains (relation : Relation) (pattern : Pattern) (state : State) :
    state.Mentions relation pattern.length ((Request.contains relation pattern).run state).2 := by
  apply mentions_of_reply contains_refused_iff
  · intro error refused
    simp only [Request.run, refused]
  · intro answer asked
    simp only [Request.run, asked]
    exact (of_contains asked).1

theorem mentions_count (relation : Relation) (pattern : Pattern) (state : State) :
    state.Mentions relation pattern.length ((Request.count relation pattern).run state).2 := by
  apply mentions_of_reply count_refused_iff
  · intro error refused
    simp only [Request.run, refused]
  · intro answer counted
    simp only [Request.run, counted]
    exact (of_count counted).1

/-! ## Insertions -/

section Insertions

variable {middle : State} {tuple : Tuple} {isNew : Bool}

theorem not_refuses_of_insert (inserted : state.insert relation tuple = .ok (isNew, middle)) :
    ¬state.Refuses relation tuple.length := by
  intro refuses
  obtain ⟨error, refused⟩ := insert_refused_iff.2 refuses
  cases inserted.symm.trans refused

theorem insertAll_cons_of_refused {error : ArityError}
    (refused : state.insert relation tuple = .error error) (tuples : List Tuple) :
    (state.insertAll relation (tuple :: tuples)).2 = state := by
  simp only [insertAll, refused]

theorem insertAll_cons_of_inserted (inserted : state.insert relation tuple = .ok (isNew, middle))
    (tuples : List Tuple) :
    (state.insertAll relation (tuple :: tuples)).2 = (middle.insertAll relation tuples).2 := by
  simp only [insertAll, inserted]
  rcases middle.insertAll relation tuples with ⟨_ | _, final⟩ <;> rfl

theorem table_insertAll_of_ne (relation : Relation) (tuples : List Tuple) (state : State)
    {tested : Relation} (different : relation ≠ tested) :
    (state.insertAll relation tuples).2.table tested = state.table tested := by
  induction tuples generalizing state with
  | nil => rfl
  | cons tuple rest inductionHypothesis =>
      cases inserted : state.insert relation tuple with
      | error error => rw [insertAll_cons_of_refused inserted]
      | ok result =>
          rw [insertAll_cons_of_inserted inserted, inductionHypothesis,
            (table_of_insert inserted).2.elsewhere tested different]

theorem arity_insertAll (relation : Relation) (tuples : List Tuple) (state : State) :
    ((state.insertAll relation tuples).2.table relation).arity =
      (state.table relation).arity.or (tuples.head?.map List.length) := by
  induction tuples generalizing state with
  | nil => exact Option.or_none.symm
  | cons tuple rest inductionHypothesis =>
      cases inserted : state.insert relation tuple with
      | error error =>
          have refuses := insert_refused_iff.1 ⟨error, inserted⟩
          rw [insertAll_cons_of_refused inserted, or_of_refuses refuses]
      | ok result =>
          have passes := not_refuses_of_insert inserted
          rw [insertAll_cons_of_inserted inserted, inductionHypothesis,
            (table_of_insert inserted).2.arity, List.head?_cons, Option.map_some,
            or_of_not_refuses passes, Option.some_or]

theorem fitting_cons_of_refuses (refuses : state.Refuses relation tuple.length)
    (named : Option Nat) (tuples : List Tuple) :
    Request.fitting ((state.table relation).arity.or named) (tuple :: tuples) = [] := by
  rw [or_of_refuses refuses]
  obtain ⟨arity, fixed, different⟩ := refuses
  rw [fixed]
  exact List.takeWhile_cons_of_neg (by simp [different])

theorem fitting_cons_of_not_refuses (passes : ¬state.Refuses relation tuple.length)
    (tuples : List Tuple) :
    Request.fitting ((state.table relation).arity.or (some tuple.length)) (tuple :: tuples) =
      tuple :: Request.fitting (some tuple.length) tuples := by
  rw [or_of_not_refuses passes]
  exact List.takeWhile_cons_of_pos (by simp)

/-- The tuples that fit are entered one after the other. -/
theorem tuples_insertAll (relation : Relation) (tuples : List Tuple) (state : State)
    {entered : List Tuple} (listed : (state.table relation).tuples = entered.eraseDups) :
    ((state.insertAll relation tuples).2.table relation).tuples =
      (entered ++ Request.fitting
        ((state.table relation).arity.or (tuples.head?.map List.length)) tuples).eraseDups := by
  induction tuples generalizing state entered with
  | nil =>
      rw [Request.fitting, List.takeWhile_nil, List.append_nil]
      exact listed
  | cons tuple rest inductionHypothesis =>
      cases inserted : state.insert relation tuple with
      | error error =>
          have refuses := insert_refused_iff.1 ⟨error, inserted⟩
          rw [insertAll_cons_of_refused inserted, fitting_cons_of_refuses refuses, List.append_nil]
          exact listed
      | ok result =>
          have passes := not_refuses_of_insert inserted
          have files := (table_of_insert inserted).2
          have listedNext : (result.2.table relation).tuples = (entered ++ [tuple]).eraseDups := by
            rw [eraseDups_append_singleton, ← listed]
            by_cases stored : tuple ∈ (state.table relation).tuples
            · rw [if_pos stored, files.again stored]
            · rw [if_neg stored, files.first stored]
          rw [insertAll_cons_of_inserted inserted, inductionHypothesis result.2 listedNext,
            files.arity,
            Option.some_or, List.head?_cons, Option.map_some, fitting_cons_of_not_refuses passes,
            List.append_assoc, List.singleton_append]

end Insertions

end State

namespace Request

variable {state start : State} {relation : Relation}

/-- One tuple is inserted like a list of one. -/
theorem run_insert (relation : Relation) (tuple : Tuple) (state : State) :
    ((insert relation tuple).run state).2 = (state.insertAll relation [tuple]).2 := by
  simp only [run]
  cases inserted : state.insert relation tuple with
  | error error => rw [State.insertAll_cons_of_refused inserted]
  | ok result =>
      rw [State.insertAll_cons_of_inserted inserted]
      rfl

theorem run_insertAll (relation : Relation) (tuples : List Tuple) (state : State) :
    ((insertAll relation tuples).run state).2 = (state.insertAll relation tuples).2 := by
  simp only [run]
  rcases state.insertAll relation tuples with ⟨_ | _, final⟩ <;> rfl

/-- When the lengths in a request count, the arities afterwards are those that were known and, where
there were none, the lengths that it names. -/
theorem arities_run_of_counts {request : Request} {after : State}
    (counts : request.Counts state.arities)
    (named : ∀ relation, (after.table relation).arity =
      (state.table relation).arity.or (request.named? relation)) :
    after.arities = request.aritiesAfter state.arities := by
  rw [aritiesAfter, if_pos counts]
  exact funext named

theorem arity_run_insertAll (listed : Relation) (tuples : List Tuple) (state : State)
    (relation : Relation) :
    ((state.insertAll listed tuples).2.table relation).arity =
      (state.table relation).arity.or
        (if listed = relation then tuples.head?.map List.length else none) := by
  by_cases here : listed = relation
  · rw [if_pos here, ← here]
    exact State.arity_insertAll listed tuples state
  · rw [if_neg here, Option.or_none, State.table_insertAll_of_ne listed tuples state here]

/-- The arities after a request can be told from those before it and from the request. -/
theorem arities_run (request : Request) (state : State) :
    (request.run state).2.arities = request.aritiesAfter state.arities := by
  cases request with
  | insert listed tuple =>
      refine arities_run_of_counts trivial ?_
      rw [run_insert]
      exact arity_run_insertAll listed [tuple] state
  | insertAll listed tuples =>
      refine arities_run_of_counts trivial ?_
      rw [run_insertAll]
      exact arity_run_insertAll listed tuples state
  | query listed pattern =>
      exact arities_run_of_counts trivial (State.mentions_query listed pattern state).arity
  | contains listed pattern =>
      exact arities_run_of_counts trivial (State.mentions_contains listed pattern state).arity
  | count listed pattern =>
      exact arities_run_of_counts trivial (State.mentions_count listed pattern state).arity
  | validate goal =>
      simp only [run]
      cases validated : goal.validate state with
      | error error =>
          have refused : ¬(Request.validate goal).Counts state.arities := by
            intro counts
            obtain ⟨after, success⟩ := Goal.exists_validate_iff.2 counts
            cases validated.symm.trans success
          rw [aritiesAfter, if_neg refused]
      | ok after =>
          have counts : (Request.validate goal).Counts state.arities :=
            Goal.exists_validate_iff.1 ⟨after, validated⟩
          apply arities_run_of_counts counts
          intro relation
          rw [(Goal.fixed_of_validate validated).tables relation]
          rfl

/-- What fits of the tuples that an insertion offers is what the insertion enters. -/
theorem tuples_run_insertAll (listed : Relation) (tuples : List Tuple) (state : State)
    {entered : List Tuple} (stored : (state.table relation).tuples = entered.eraseDups) :
    ((state.insertAll listed tuples).2.table relation).tuples =
      (entered ++ (Request.insertAll listed tuples).entered state.arities relation).eraseDups := by
  have counts : (Request.insertAll listed tuples).Counts state.arities := trivial
  rw [Request.entered, aritiesAfter, if_pos counts, named?, offered]
  by_cases here : listed = relation
  · rw [if_pos here, if_pos here, here]
    exact State.tuples_insertAll relation tuples state stored
  · rw [if_neg here, if_neg here, fitting, List.takeWhile_nil, List.append_nil,
      State.table_insertAll_of_ne listed tuples state here]
    exact stored

/-- The tuples after a request are those before it and those that it enters. -/
theorem tuples_run (request : Request) (state : State) {entered : List Tuple}
    (stored : (state.table relation).tuples = entered.eraseDups) :
    ((request.run state).2.table relation).tuples =
      (entered ++ request.entered state.arities relation).eraseDups := by
  have untouched : ∀ after : State,
      (after.table relation).tuples = (state.table relation).tuples →
        (after.table relation).tuples = (entered ++ []).eraseDups := by
    intro after same
    rw [List.append_nil, same, stored]
  cases request with
  | insert listed tuple =>
      rw [run_insert]
      exact tuples_run_insertAll listed [tuple] state stored
  | insertAll listed tuples =>
      rw [run_insertAll]
      exact tuples_run_insertAll listed tuples state stored
  | query listed pattern =>
      exact untouched _ ((State.mentions_query listed pattern state).tuples relation)
  | contains listed pattern =>
      exact untouched _ ((State.mentions_contains listed pattern state).tuples relation)
  | count listed pattern =>
      exact untouched _ ((State.mentions_count listed pattern state).tuples relation)
  | validate goal =>
      apply untouched
      simp only [run]
      cases validated : goal.validate state with
      | error error => rfl
      | ok after => rw [(Goal.fixed_of_validate validated).tables relation]

/-! ## Many requests -/

theorem arities_runAll (requests : List Request) (state : State) :
    (runAll requests state).arities = aritiesAfterAll state.arities requests := by
  induction requests generalizing state with
  | nil => rfl
  | cons request others inductionHypothesis =>
      have later := inductionHypothesis (request.run state).2
      rw [arities_run] at later
      exact later

theorem tuples_runAll (requests : List Request) (state : State) {entered : List Tuple}
    (stored : (state.table relation).tuples = entered.eraseDups) :
    ((runAll requests state).table relation).tuples =
      (entered ++ entries state.arities relation requests).eraseDups := by
  induction requests generalizing state entered with
  | nil =>
      rw [entries, List.append_nil]
      exact stored
  | cons request others inductionHypothesis =>
      have later := inductionHypothesis (request.run state).2 (tuples_run request state stored)
      rw [arities_run, List.append_assoc] at later
      exact later

/-- After any requests to a store in which a relation was new, its arity is the first length that
counted for it, and its tuples are those that the requests enter, in the order in which they came
first.  Its table agrees with the journal, its arity stays once it is fixed, and what further
requests answer follows from the table: they are refused for their length alone and then change
nothing. -/
theorem requests_keep {start state : State} {relation : Relation} (new : start.New relation)
    {requests : List Request} (reached : runAll requests start = state) :
    state.Keeps relation ∧
    (state.table relation).arity = aritiesAfterAll start.arities requests relation ∧
    (state.table relation).tuples = (entries start.arities relation requests).eraseDups ∧
    (∀ names, (state.journal.filter (Event.fixesArity relation)).filterMap (Event.line? names) =
      ((state.table relation).arity.map fun arity =>
        (.debug, "relation `" ++ relation.name ++ "` has arity " ++ toString arity)).toList) ∧
    (∀ more arity, (state.table relation).arity = some arity →
      ((runAll more state).table relation).arity = some arity) ∧
    state.Responds relation ∧
    ∀ (request : Request) (error : ArityError), (request.run state).1 = some error →
      (∀ listed tuples, request ≠ .insertAll listed tuples) → (request.run state).2 = state := by
  have keeps : state.Keeps relation := by
    rw [← reached]
    exact new.keeps.grow (grows_runAll requests start)
  have nothingStored : (start.table relation).tuples = ([] : List Tuple).eraseDups := by
    rw [new.blank]
    rfl
  refine ⟨keeps, ?_, ?_, keeps.lines, fun more arity fixed => ?_, State.responds relation state, ?_⟩
  · rw [← reached]
    exact congrFun (arities_runAll requests start) relation
  · rw [← reached]
    exact tuples_runAll requests start nothingStored
  · exact (grows_runAll more state).aritiesWithin relation arity fixed
  · exact fun request error refused single => unchanged_of_refused refused single

/-- A relation without positions: either its only tuple is stored or it is not. -/
def signal : Relation :=
  ⟨0, "signal"⟩

/-- A relation between two values. -/
def parent : Relation :=
  ⟨1, "parent"⟩

def john : Value :=
  .symbol "john"

def mary : Value :=
  .symbol "mary"

/-- The empty pattern fixes the arity zero of the one relation; the empty tuple is entered twice,
and a longer one is refused together with what comes after it.  The arity two of the other is not
fixed by a goal that contradicts itself, but by the pattern that is asked for next; a pair is
entered twice, its reverse once, and a tuple of another length not at all. -/
def signalled : List Request :=
  [.count signal [], .insertAll signal [[], [], [.bool true], []], .validate (.fact signal []),
    .validate (.conj (.fact parent [.wildcard]) (.fact parent [.wildcard, .wildcard])),
    .query parent [.wildcard, .wildcard], .insert parent [john, mary], .insert parent [mary, john],
    .insert parent [john], .insert parent [john, mary]]

theorem requests_keep_signal :
    State.initial.New signal ∧ State.initial.New parent ∧
      (runAll signalled .initial).Keeps signal ∧ (runAll signalled .initial).Keeps parent ∧
      entries State.initial.arities parent signalled =
        [[john, mary], [mary, john], [john, mary]] ∧
      ((runAll signalled .initial).table parent).arity = some 2 ∧
      ((runAll signalled .initial).table parent).tuples = [[john, mary], [mary, john]] ∧
      (runAll signalled .initial).table signal = ⟨some 0, [[]]⟩ ∧
      (∀ more, ((runAll more (runAll signalled .initial)).table signal).arity = some 0) ∧
      (∃ error, (runAll signalled .initial).insert signal [.bool true] = .error error) ∧
      (runAll signalled .initial).OneByOne signal [[], [.bool true]]
        (.error (.relation "signal" 0 1), ((runAll signalled .initial).record
          (.inserted signal []))) := by
  have newSignal := State.new_initial signal
  have newParent := State.new_initial parent
  obtain ⟨keeps, _, _, _, stays, responds, _⟩ :=
    requests_keep newSignal (rfl : runAll signalled .initial = _)
  obtain ⟨otherKeeps, arity, tuples, _⟩ :=
    requests_keep newParent (rfl : runAll signalled .initial = _)
  exact ⟨newSignal, newParent, keeps, otherKeeps, rfl, arity, tuples, rfl,
    fun more => stays more 0 rfl, (responds.insert_refused _).2 ⟨0, rfl, by decide⟩,
    responds.insertAll [[], [.bool true]]⟩

end Request

end GroundLogic
