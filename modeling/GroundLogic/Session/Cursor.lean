import GroundLogic.Session.Operand

/-!
# Cursors of a session

Pulling from a stream that is kept open, and forgetting it.
-/

namespace GroundLogic

namespace Session

def lastSolution? (items : List Item) : Option Environment :=
  match items.getLast? with
  | some (.solution env) => some env
  | _ => none

/-- Pulls items from a cursor that is kept.  The last solution can be stored. -/
def next (fuel : Nat) (session : Session) (handle : String) (wanted : Option Nat)
    (save : Option String) : Session × Reply :=
  match session.cursors.get? handle with
  | none => session.refuse .badInput
  | some cursor =>
      match cursor.take fuel (wanted.getD 1) session.state with
      | (batch, rest, after) =>
          let moved := (session.withState after).storeCursor handle rest
          if batch.completion = .unfinished then moved.refuse .unfinished
          else
            let saved :=
              match save, lastSolution? batch.answers with
              | some target, some env =>
                  { moved with environments := moved.environments.put target env }
              | _, _ => moved
            (saved, .items (saved.viewBatch batch))

def drop (session : Session) (handle : String) : Session × Reply :=
  match session.cursors.get? handle with
  | none => session.refuse .badInput
  | some _ => ({ session with cursors := session.cursors.erase handle }, .dropped)

end Session

end GroundLogic
