import GroundLogic.Term
import GroundLogic.Tuple

/-!
# Relations and their tables

A relation is a token with a name; two relations with the same name are different relations.  What
is stored under it is its table: an arity, once it is fixed, and distinct tuples in the order of
their first insertion.  Matching a pattern looks at the values in it and binds nothing.
-/

namespace GroundLogic

/-- A named relation.  The number tells relations of the same name apart. -/
structure Relation where
  id : Nat
  name : String
  deriving DecidableEq, Repr, Inhabited

structure Table where
  arity : Option Nat
  tuples : List Tuple
  deriving DecidableEq, Repr

namespace Table

def empty : Table :=
  ⟨none, []⟩

instance : Inhabited Table :=
  ⟨empty⟩

end Table

/-! ## Matching -/

namespace Term

/-- Whether a stored value may stand at the position of a term: a value admits only itself. -/
def admits : Term → Value → Bool
  | .value expected, stored => expected = stored
  | .var _, _ => true
  | .wildcard, _ => true

end Term

namespace Pattern

/-- Whether a tuple has the length of the pattern and agrees with it wherever the pattern holds a
value.  A repeated variable is not asked to agree with itself. -/
def admits : Pattern → Tuple → Bool
  | [], [] => true
  | term :: terms, value :: values => term.admits value && admits terms values
  | _, _ => false

end Pattern

/-- A scan in progress over the tuples that match a pattern: the tuples not yet looked at. -/
structure Matches where
  relation : Relation
  pattern : Pattern
  remaining : List Tuple
  deriving DecidableEq, Repr

namespace Matches

/-- The next matching tuple, and the tuples that stand after it; nothing remains after the last. -/
def nextIn (pattern : Pattern) : List Tuple → Option Tuple × List Tuple
  | [] => (none, [])
  | tuple :: rest => if pattern.admits tuple then (some tuple, rest) else nextIn pattern rest

def next (found : Matches) : Option Tuple × Matches :=
  match nextIn found.pattern found.remaining with
  | (answer, rest) => (answer, { found with remaining := rest })

/-- All matching tuples that are still to come. -/
def toList (found : Matches) : List Tuple :=
  found.remaining.filter found.pattern.admits

def text (names : Naming) (found : Matches) : String :=
  found.pattern.text names found.relation.name

end Matches

/-! ## Databases -/

/-- The tables of finitely many relations; every other relation has the empty table. -/
structure Database where
  tables : List (Relation × Table)
  deriving Inhabited

namespace Database

def empty : Database :=
  ⟨[]⟩

def tableIn (relation : Relation) : List (Relation × Table) → Table
  | [] => .empty
  | (listed, table) :: rest => if listed = relation then table else tableIn relation rest

def table (database : Database) (relation : Relation) : Table :=
  tableIn relation database.tables

def putIn (relation : Relation) (table : Table) :
    List (Relation × Table) → List (Relation × Table)
  | [] => [(relation, table)]
  | (listed, old) :: rest =>
      if listed = relation then (relation, table) :: rest
      else (listed, old) :: putIn relation table rest

def put (database : Database) (relation : Relation) (table : Table) : Database :=
  ⟨putIn relation table database.tables⟩

theorem tableIn_putIn (tables : List (Relation × Table))
    (relation : Relation) (table : Table) (tested : Relation) :
    tableIn tested (putIn relation table tables) =
      if relation = tested then table else tableIn tested tables := by
  induction tables with
  | nil => rfl
  | cons head tail inductionHypothesis =>
      obtain ⟨listed, old⟩ := head
      simp only [putIn]
      by_cases here : listed = relation
      · subst here
        simp only [if_true, tableIn]
        by_cases same : listed = tested <;> simp [same]
      · simp only [if_neg here, tableIn, inductionHypothesis]
        by_cases same : listed = tested
        · have different : relation ≠ tested := fun equality =>
            here (same.trans equality.symm)
          simp [same, different]
        · simp [same]

@[simp]
theorem table_empty (relation : Relation) : empty.table relation = .empty :=
  rfl

/-- Replacing one table leaves the tables of all other relations alone. -/
theorem table_put (database : Database) (relation : Relation) (table : Table)
    (tested : Relation) :
    (database.put relation table).table tested =
      if relation = tested then table else database.table tested :=
  tableIn_putIn database.tables relation table tested

@[simp]
theorem table_put_self (database : Database) (relation : Relation) (table : Table) :
    (database.put relation table).table relation = table := by
  simp [table_put]

end Database

end GroundLogic
