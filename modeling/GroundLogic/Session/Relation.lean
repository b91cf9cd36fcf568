import GroundLogic.Session.Operand

/-!
# Relations of a session

Making relations, inserting into them and asking for the tuples that match a pattern.  A frozen
relation refuses every insertion before the values are looked at.
-/

namespace GroundLogic

namespace Session

def viewRelation (session : Session) (relation : Relation) : Reply :=
  .relation relation.name (session.state.table relation)

def createRelation (session : Session) (handle name : String) : Session × Reply :=
  let relation : Relation := ⟨session.relationCount, name⟩
  let created :=
    { session with
      relations := session.relations.put handle relation
      relationCount := session.relationCount + 1 }
  (created, created.viewRelation relation)

def showRelation (session : Session) (handle : String) : Session × Reply :=
  match session.relations.get? handle with
  | none => session.refuse .badInput
  | some relation => (session, session.viewRelation relation)

def insert (session : Session) (handle : String) (tuple : Option Tuple) : Session × Reply :=
  match session.relations.get? handle with
  | none => session.refuse .badInput
  | some relation =>
      if relation ∈ session.frozen then session.refuse .frozen
      else
        match tuple with
        | none => session.refuse .badInput
        | some values =>
            match session.state.insert relation values with
            | .error error => session.refuse (.arity error)
            | .ok (isNew, after) =>
                (session.withState after, .inserted isNew (after.table relation))

def insertAll (session : Session) (handle : String) (tuples : Option (List Tuple)) :
    Session × Reply :=
  match session.relations.get? handle with
  | none => session.refuse .badInput
  | some relation =>
      if relation ∈ session.frozen then session.refuse .frozen
      else
        match tuples with
        | none => session.refuse .badInput
        | some listed =>
            match session.state.insertAll relation listed with
            | (.error error, after) => (session.withState after).refuse (.arity error)
            | (.ok added, after) =>
                (session.withState after, .insertedAll added (after.table relation))

def relationPattern? (session : Session) (handle : String) (operands : List Operand) :
    Option (Relation × Pattern) :=
  match session.relations.get? handle, session.pattern? operands with
  | some relation, some pattern => some (relation, pattern)
  | _, _ => none

def query (fuel : Nat) (session : Session) (handle : String) (operands : List Operand)
    (limit : Limit) : Session × Reply :=
  match session.relationPattern? handle operands, limit.number? with
  | some (relation, pattern), some wanted =>
      match session.state.query relation pattern with
      | .error error => session.refuse (.arity error)
      | .ok (found, after) =>
          (session.withState after).enumerate fuel (.matching found) wanted
            (.patternItems (found.text session.names) (session.viewTerms pattern))
  | _, _ => session.refuse .badInput

def contains (session : Session) (handle : String) (operands : List Operand) :
    Session × Reply :=
  match session.relationPattern? handle operands with
  | none => session.refuse .badInput
  | some (relation, pattern) =>
      match session.state.contains relation pattern with
      | .error error => session.refuse (.arity error)
      | .ok (truth, after) => (session.withState after, .contains truth)

def count (session : Session) (handle : String) (operands : List Operand) : Session × Reply :=
  match session.relationPattern? handle operands with
  | none => session.refuse .badInput
  | some (relation, pattern) =>
      match session.state.count relation pattern with
      | .error error => session.refuse (.arity error)
      | .ok (number, after) => (session.withState after, .count number)

/-- Opens a cursor over the tuples that match a pattern.  The relation is frozen even if the
pattern does not fit. -/
def openQuery (session : Session) (handle relation : String) (operands : List Operand) :
    Session × Reply :=
  match session.relationPattern? relation operands with
  | none => session.refuse .badInput
  | some (read, pattern) =>
      let freezing := { session with frozen := read :: session.frozen }
      match freezing.state.query read pattern with
      | .error error => freezing.refuse (.arity error)
      | .ok (found, after) =>
          ((freezing.withState after).storeCursor handle (.matching found),
            .pattern (found.text session.names) (session.viewTerms pattern))

def cloneCursor (session : Session) (handle source : String) : Session × Reply :=
  match session.cursors.get? source with
  | some (.matching found) =>
      (session.storeCursor handle (.matching found), .cursor (found.text session.names))
  | _ => session.refuse .badInput

end Session

end GroundLogic
