import GroundLogic.Journal

/-!
# The state of an engine

A state holds the declarations of all variables created so far, the tables of the relations and
the journal.  Variables and events are only ever added.  An operation that is refused because of an
arity leaves no trace; the exception is the insertion of many tuples, which keeps the ones before
the first that is refused.
-/

namespace GroundLogic

/-- The variables created so far, the stored facts, and what has happened. -/
structure State where
  declarations : Array Declaration
  database : Database
  journal : Journal

namespace State

/-- The state at the start: nothing created, nothing stored, nothing done. -/
def initial : State :=
  ⟨#[], .empty, []⟩

instance : Inhabited State :=
  ⟨initial⟩

/-! ## Variables -/

/-- The number that the next variable will have. -/
def nextId (state : State) : Nat :=
  state.declarations.size + 1

/-- What was declared for a variable. -/
def declaration (state : State) (unknown : Variable) : Declaration :=
  match unknown.id with
  | 0 => .generated
  | position + 1 => state.declarations[position]?.getD .generated

def names (state : State) : Naming :=
  fun unknown => (state.declaration unknown).nameOf unknown

def declare (state : State) (declaration : Declaration) : Variable × State :=
  (⟨state.nextId⟩, { state with declarations := state.declarations.push declaration })

/-- Creates one variable for each declaration, in order. -/
def declareAll (state : State) (declarations : List Declaration) : State :=
  { state with declarations := state.declarations ++ declarations.toArray }

@[simp]
theorem nextId_declareAll (state : State) (declarations : List Declaration) :
    (state.declareAll declarations).nextId = state.nextId + declarations.length := by
  simp only [declareAll, nextId, Array.size_append, List.size_toArray]
  omega

/-! ## Events and tables -/

def record (state : State) (event : Event) : State :=
  { state with journal := event :: state.journal }

def table (state : State) (relation : Relation) : Table :=
  state.database.table relation

def putTable (state : State) (relation : Relation) (table : Table) : State :=
  { state with database := state.database.put relation table }

@[simp]
theorem nextId_record (state : State) (event : Event) :
    (state.record event).nextId = state.nextId :=
  rfl

@[simp]
theorem nextId_putTable (state : State) (relation : Relation) (table : Table) :
    (state.putTable relation table).nextId = state.nextId :=
  rfl

/-! ## Facts -/

/-- Compares a length with the arity of a relation, or fixes the arity if there is none yet. -/
def checkArity (state : State) (relation : Relation) (actual : Nat) :
    Except ArityError State :=
  match (state.table relation).arity with
  | none =>
      .ok ((state.record (.arityFixed relation actual)).putTable relation
        { state.table relation with arity := some actual })
  | some expected =>
      if expected = actual then .ok state
      else .error (.relation relation.name expected actual)

/-- Adds a tuple to a relation, after those that are there.  The answer says whether it is new. -/
def insert (state : State) (relation : Relation) (tuple : Tuple) :
    Except ArityError (Bool × State) :=
  match state.checkArity relation tuple.length with
  | .error error => .error error
  | .ok checked =>
      let noted := checked.record (.inserted relation tuple)
      let table := noted.table relation
      if tuple ∈ table.tuples then
        .ok (false, noted)
      else
        .ok (true, noted.putTable relation { table with tuples := table.tuples ++ [tuple] })

/-- Adds tuples one by one and counts the new ones.  The first that does not fit ends the
insertion; those before it stay. -/
def insertAll (state : State) (relation : Relation) :
    List Tuple → Except ArityError Nat × State
  | [] => (.ok 0, state)
  | tuple :: tuples =>
      match state.insert relation tuple with
      | .error error => (.error error, state)
      | .ok (isNew, inserted) =>
          match inserted.insertAll relation tuples with
          | (.error error, final) => (.error error, final)
          | (.ok added, final) => (.ok (added + isNew.toNat), final)

def query (state : State) (relation : Relation) (pattern : Pattern) :
    Except ArityError (Matches × State) :=
  match state.checkArity relation pattern.length with
  | .error error => .error error
  | .ok checked => .ok (⟨relation, pattern, (checked.table relation).tuples⟩, checked)

def contains (state : State) (relation : Relation) (pattern : Pattern) :
    Except ArityError (Bool × State) :=
  match state.query relation pattern with
  | .error error => .error error
  | .ok (found, queried) => .ok (found.next.1.isSome, queried)

def count (state : State) (relation : Relation) (pattern : Pattern) :
    Except ArityError (Nat × State) :=
  match state.query relation pattern with
  | .error error => .error error
  | .ok (found, queried) => .ok (found.toList.length, queried)

end State

end GroundLogic
