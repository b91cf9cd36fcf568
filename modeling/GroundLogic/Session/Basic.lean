import GroundLogic.Query
import GroundLogic.RuleBook
import GroundLogic.Session.Handles

/-!
# Sessions

A session is an engine together with everything that has been stored under a handle.  Relations
become frozen once a goal or an open cursor reads them: from then on nothing can be inserted, so
that no search ever sees its facts change.
-/

namespace GroundLogic

/-- A stream of answers that is being pulled. -/
inductive Cursor where
  | matching (found : Matches)
  | solving (search : Search)
  | answering (answers : Answers)

inductive Item where
  | tuple (tuple : Tuple)
  | solution (env : Environment)
  | answer (pattern : Pattern)

/-- A rule under a handle.  Only a rule that was defined under its handle has a key by which its
builds are counted. -/
structure StoredRule where
  rule : Rule
  key : Option Nat

/-- An engine and what is stored under handles. -/
structure Session where
  state : State
  labels : Handles Variable
  relations : Handles Relation
  environments : Handles Environment
  goals : Handles Goal
  rules : Handles StoredRule
  queries : Handles RuleQuery
  cursors : Handles Cursor
  books : Handles RuleBook
  /-- The relations into which nothing can be inserted any more. -/
  frozen : List Relation
  /-- The number of relations made so far. -/
  relationCount : Nat
  /-- The number of rule templates read so far. -/
  templateCount : Nat
  /-- The number of events whose lines were shown. -/
  eventsShown : Nat

namespace Session

def initial : Session where
  state := .initial
  labels := []
  relations := []
  environments := []
  goals := []
  rules := []
  queries := []
  cursors := []
  books := []
  frozen := []
  relationCount := 0
  templateCount := 0
  eventsShown := 0

def names (session : Session) : Naming :=
  session.state.names

end Session

namespace Cursor

/-- The next item of a cursor, found within `fuel` steps. -/
def pull (fuel : Nat) (cursor : Cursor) (state : State) : Pull Item × Cursor × State :=
  match cursor with
  | .matching found =>
      match found.next with
      | (some tuple, rest) => (.found (.tuple tuple), .matching rest, state)
      | (none, rest) => (.ended, .matching rest, state)
  | .solving search =>
      match search.pull fuel state with
      | (outcome, rest, after) => (outcome.map .solution, .solving rest, after)
  | .answering answers =>
      match answers.pull fuel state with
      | (outcome, rest, after) => (outcome.map .answer, .answering rest, after)

/-- Pulls up to a number of items, with at most `fuel` steps for each. -/
def take (fuel wanted : Nat) (cursor : Cursor) (state : State) :
    Batch Item × Cursor × State :=
  Pull.take (fun source => source.1.pull fuel source.2) wanted (cursor, state)

end Cursor

end GroundLogic
