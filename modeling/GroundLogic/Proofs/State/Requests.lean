import GroundLogic.Proofs.State.Storage

/-!
# Requests to the store

The arity of a relation can be fixed by whatever names a length first: a tuple, one of many tuples,
a pattern that is asked for, or a goal that is validated.  Whether a request is refused, what it
answers and stores otherwise, and how far an insertion of many tuples gets is said here in terms of
the table alone (`State.responds`).
-/

namespace GroundLogic

/-- There is a next tuple just when there is one still to come. -/
theorem Matches.isSome_next_iff (found : Matches) :
    found.next.1.isSome = true ↔ ∃ tuple, tuple ∈ found.toList := by
  obtain ⟨relation, pattern, remaining⟩ := found
  simp only [toList, next]
  induction remaining with
  | nil => simp [nextIn]
  | cons tuple others inductionHypothesis =>
      by_cases admitted : pattern.admits tuple = true
      · simp [nextIn, admitted]
      · simp only [nextIn, if_neg admitted, List.filter_cons]
        exact inductionHypothesis

namespace State

variable {relation : Relation} {state : State}

/-! ## Single answers -/

/-- The relation has an arity, and it is another one. -/
def Refuses (relation : Relation) (state : State) (actual : Nat) : Prop :=
  ∃ arity, (state.table relation).arity = some arity ∧ arity ≠ actual

theorem checkArity_refused_iff {actual : Nat} :
    (∃ error, state.checkArity relation actual = .error error) ↔ state.Refuses relation actual := by
  simp only [checkArity, Refuses]
  cases (state.table relation).arity with
  | none => simp
  | some arity => by_cases same : arity = actual <;> simp [same]

theorem insert_refused_iff {tuple : Tuple} :
    (∃ error, state.insert relation tuple = .error error) ↔
      state.Refuses relation tuple.length := by
  rw [← checkArity_refused_iff]
  simp only [insert]
  cases state.checkArity relation tuple.length with
  | error error => simp
  | ok checked =>
      simp only
      split <;> simp

theorem query_refused_iff {pattern : Pattern} :
    (∃ error, state.query relation pattern = .error error) ↔
      state.Refuses relation pattern.length := by
  rw [← checkArity_refused_iff]
  simp only [query]
  cases state.checkArity relation pattern.length <;> simp

theorem contains_refused_iff {pattern : Pattern} :
    (∃ error, state.contains relation pattern = .error error) ↔
      state.Refuses relation pattern.length := by
  rw [← query_refused_iff]
  simp only [contains]
  cases state.query relation pattern <;> simp

theorem count_refused_iff {pattern : Pattern} :
    (∃ error, state.count relation pattern = .error error) ↔
      state.Refuses relation pattern.length := by
  rw [← query_refused_iff]
  simp only [count]
  cases state.query relation pattern <;> simp

/-- A query fixes the arity and finds the stored tuples that the pattern admits. -/
theorem of_query {pattern : Pattern} {found : Matches} {after : State}
    (queried : state.query relation pattern = .ok (found, after)) :
    state.Fixes relation pattern.length after ∧
      found.toList = (state.table relation).tuples.filter pattern.admits := by
  simp only [query] at queried
  split at queried
  · cases queried
  · next checked passed =>
      cases queried
      have fixes := fixes_of_checkArity passed
      refine ⟨fixes, ?_⟩
      rw [Matches.toList, fixes relation, if_pos rfl]

theorem of_contains {pattern : Pattern} {answer : Bool} {after : State}
    (asked : state.contains relation pattern = .ok (answer, after)) :
    state.Fixes relation pattern.length after ∧
      (answer = true ↔ ∃ tuple ∈ (state.table relation).tuples, pattern.admits tuple = true) := by
  simp only [contains] at asked
  split at asked
  · cases asked
  · next found queried passed =>
      cases asked
      obtain ⟨fixes, listed⟩ := of_query passed
      refine ⟨fixes, ?_⟩
      rw [found.isSome_next_iff, listed]
      simp only [List.mem_filter]

theorem of_count {pattern : Pattern} {number : Nat} {after : State}
    (counted : state.count relation pattern = .ok (number, after)) :
    state.Fixes relation pattern.length after ∧
      number = ((state.table relation).tuples.filter pattern.admits).length := by
  simp only [count] at counted
  split at counted
  · cases counted
  · next found queried passed =>
      cases counted
      obtain ⟨fixes, listed⟩ := of_query passed
      exact ⟨fixes, congrArg List.length listed⟩

theorem length_of_insert {tuple : Tuple} {isNew : Bool} {after : State}
    (inserted : state.insert relation tuple = .ok (isNew, after)) :
    (after.table relation).tuples.length =
      (state.table relation).tuples.length + isNew.toNat := by
  obtain ⟨newIff, files⟩ := table_of_insert inserted
  cases isNew with
  | true =>
      rw [files.first (newIff.1 rfl), List.length_append]
      rfl
  | false =>
      have stored : tuple ∈ (state.table relation).tuples := by
        by_contra new
        cases newIff.2 new
      rw [files.again stored]
      rfl

/-! ## Many tuples -/

/-- The tuples are inserted one by one, and none is refused. -/
inductive Inserts (relation : Relation) : State → List Tuple → State → Prop
  | nil (state : State) : Inserts relation state [] state
  | cons {state middle after : State} {tuple : Tuple} {tuples : List Tuple} {isNew : Bool}
      (inserted : state.insert relation tuple = .ok (isNew, middle))
      (others : Inserts relation middle tuples after) :
      Inserts relation state (tuple :: tuples) after

/-- What it means that an insertion of many tuples is the insertion of one after the other, up to
the first that is refused. -/
def OneByOne (relation : Relation) (state : State) (tuples : List Tuple) :
    Except ArityError Nat × State → Prop
  | (.ok added, final) =>
      state.Inserts relation tuples final ∧
        (final.table relation).tuples.length =
          (state.table relation).tuples.length + added
  | (.error error, final) =>
      ∃ before bad after, tuples = before ++ bad :: after ∧
        state.Inserts relation before final ∧ final.insert relation bad = .error error

theorem oneByOne_insertAll (relation : Relation) (state : State) (tuples : List Tuple) :
    state.OneByOne relation tuples (state.insertAll relation tuples) := by
  induction tuples generalizing state with
  | nil => exact ⟨.nil state, rfl⟩
  | cons tuple rest inductionHypothesis =>
      simp only [insertAll]
      cases inserted : state.insert relation tuple with
      | error error => exact ⟨[], tuple, rest, rfl, .nil state, inserted⟩
      | ok result =>
          obtain ⟨isNew, middle⟩ := result
          have later := inductionHypothesis middle
          rcases others : middle.insertAll relation rest with ⟨error | added, final⟩ <;>
            rw [others] at later <;> simp only [others]
          · obtain ⟨before, bad, after, rfl, done, refused⟩ := later
            exact ⟨tuple :: before, bad, after, rfl, .cons inserted done, refused⟩
          · obtain ⟨done, grown⟩ := later
            refine ⟨.cons inserted done, ?_⟩
            rw [grown, length_of_insert inserted, Nat.add_assoc, Nat.add_comm added]

/-- What the store answers to a request about a relation. -/
structure Responds (relation : Relation) (state : State) : Prop where
  insert_refused : ∀ tuple, (∃ error, state.insert relation tuple = .error error) ↔
    state.Refuses relation tuple.length
  query_refused : ∀ pattern, (∃ error, state.query relation pattern = .error error) ↔
    state.Refuses relation pattern.length
  contains_refused : ∀ pattern, (∃ error, state.contains relation pattern = .error error) ↔
    state.Refuses relation pattern.length
  count_refused : ∀ pattern, (∃ error, state.count relation pattern = .error error) ↔
    state.Refuses relation pattern.length
  inserted : ∀ tuple isNew after, state.insert relation tuple = .ok (isNew, after) →
    (isNew = true ↔ tuple ∉ (state.table relation).tuples) ∧ state.Files relation tuple after
  insertAll : ∀ tuples, state.OneByOne relation tuples (state.insertAll relation tuples)
  queried : ∀ pattern found after, state.query relation pattern = .ok (found, after) →
    state.Fixes relation pattern.length after ∧
      found.toList = (state.table relation).tuples.filter pattern.admits
  contained : ∀ pattern answer after, state.contains relation pattern = .ok (answer, after) →
    state.Fixes relation pattern.length after ∧
      (answer = true ↔ ∃ tuple ∈ (state.table relation).tuples, pattern.admits tuple = true)
  counted : ∀ pattern number after, state.count relation pattern = .ok (number, after) →
    state.Fixes relation pattern.length after ∧
      number = ((state.table relation).tuples.filter pattern.admits).length

theorem responds (relation : Relation) (state : State) : state.Responds relation where
  insert_refused _ := insert_refused_iff
  query_refused _ := query_refused_iff
  contains_refused _ := contains_refused_iff
  count_refused _ := count_refused_iff
  inserted _ _ _ := table_of_insert
  insertAll tuples := oneByOne_insertAll relation state tuples
  queried _ _ _ := of_query
  contained _ _ _ := of_contains
  counted _ _ _ := of_count

/-- The line that announces the arity stands in the journal once, or not at all. -/
theorem Keeps.lines (keeps : state.Keeps relation) (names : Naming) :
    (state.journal.filter (Event.fixesArity relation)).filterMap (Event.line? names) =
      ((state.table relation).arity.map fun arity =>
        (.debug, "relation `" ++ relation.name ++ "` has arity " ++ toString arity)).toList := by
  rw [keeps.announced]
  cases (state.table relation).arity <;> rfl

end State

/-! ## Sequences of requests -/

/-- A request to the store, about any relation. -/
inductive Request where
  | insert (relation : Relation) (tuple : Tuple)
  | insertAll (relation : Relation) (tuples : List Tuple)
  | query (relation : Relation) (pattern : Pattern)
  | contains (relation : Relation) (pattern : Pattern)
  | count (relation : Relation) (pattern : Pattern)
  | validate (goal : Goal)

namespace Request

/-- The error if the request is refused, and the state after it. -/
def run (state : State) : Request → Option ArityError × State
  | .insert relation tuple =>
      match state.insert relation tuple with
      | .error error => (some error, state)
      | .ok (_, after) => (none, after)
  | .insertAll relation tuples =>
      match state.insertAll relation tuples with
      | (.error error, after) => (some error, after)
      | (.ok _, after) => (none, after)
  | .query relation pattern =>
      match state.query relation pattern with
      | .error error => (some error, state)
      | .ok (_, after) => (none, after)
  | .contains relation pattern =>
      match state.contains relation pattern with
      | .error error => (some error, state)
      | .ok (_, after) => (none, after)
  | .count relation pattern =>
      match state.count relation pattern with
      | .error error => (some error, state)
      | .ok (_, after) => (none, after)
  | .validate goal =>
      match goal.validate state with
      | .error error => (some error, state)
      | .ok after => (none, after)

/-- The state after some requests, refused ones among them. -/
def runAll (requests : List Request) (state : State) : State :=
  requests.foldl (fun current request => (request.run current).2) state

theorem grows_run (request : Request) (state : State) : state.Grows (request.run state).2 := by
  cases request with
  | insert relation tuple =>
      simp only [run]
      cases inserted : state.insert relation tuple with
      | error error => exact .refl
      | ok result => exact (State.stores_of_insert inserted).grows
  | insertAll relation tuples =>
      have grows := state.grows_insertAll relation tuples
      simp only [run]
      rcases inserted : state.insertAll relation tuples with ⟨_ | _, after⟩ <;>
        rw [inserted] at grows <;> exact grows
  | query relation pattern =>
      simp only [run]
      cases queried : state.query relation pattern with
      | error error => exact .refl
      | ok result => exact (State.stores_of_query queried).grows
  | contains relation pattern =>
      simp only [run, State.contains]
      cases queried : state.query relation pattern with
      | error error => exact .refl
      | ok result => exact (State.stores_of_query queried).grows
  | count relation pattern =>
      simp only [run, State.count]
      cases queried : state.query relation pattern with
      | error error => exact .refl
      | ok result => exact (State.stores_of_query queried).grows
  | validate goal =>
      simp only [run]
      cases validated : goal.validate state with
      | error error => exact .refl
      | ok after => exact (Goal.stores_of_validate validated).grows

theorem grows_runAll (requests : List Request) (state : State) :
    state.Grows (runAll requests state) := by
  induction requests generalizing state with
  | nil => exact .refl
  | cons request others inductionHypothesis =>
      exact (request.grows_run state).trans (inductionHypothesis _)

/-- A refused request changes nothing, except that tuples before a refused one stay. -/
theorem unchanged_of_refused {request : Request} {state : State} {error : ArityError}
    (refused : (request.run state).1 = some error)
    (single : ∀ relation tuples, request ≠ .insertAll relation tuples) :
    (request.run state).2 = state := by
  cases request with
  | insertAll relation tuples => exact absurd rfl (single relation tuples)
  | insert | query | contains | count | validate =>
      simp only [run] at refused ⊢
      split at refused
      · rfl
      · cases refused

end Request

end GroundLogic
