import GroundLogic.Session.Expression
import GroundLogic.Session.Limit
import GroundLogic.Session.Reply

/-!
# Operands and what is stored

What the operands of a request mean in a session, and how things are put under a handle, shown and
pulled on its behalf.
-/

namespace GroundLogic

namespace Session

def term? (session : Session) : Operand → Option Term
  | .value constant => some (.value constant)
  | .var label => (session.labels.get? label).map .var
  | .wildcard => some .wildcard
  | .malformed => none

def pattern? (session : Session) (operands : List Operand) : Option Pattern :=
  operands.mapM session.term?

/-- A refusal that leaves the session as it is. -/
def refuse (session : Session) (reason : Refusal) : Session × Reply :=
  (session, .refused reason)

def withState (session : Session) (state : State) : Session :=
  { session with state := state }

def viewTerms (session : Session) (pattern : Pattern) : List TermView :=
  pattern.map (TermView.ofTerm session.names)

def storeVariable (session : Session) (label : String) (unknown : Variable) : Session × Reply :=
  ({ session with labels := session.labels.put label unknown },
    .variable (.ofVariable session.state unknown))

def storeEnvironment (session : Session) (handle : String) (env : Environment) :
    Session × Reply :=
  ({ session with environments := session.environments.put handle env },
    .environment (.ofEnvironment session.names env))

def storeBook (session : Session) (handle : String) (book : RuleBook) : Session × Reply :=
  ({ session with books := session.books.put handle book }, .book book.names)

def storeCursor (session : Session) (handle : String) (cursor : Cursor) : Session :=
  { session with cursors := session.cursors.put handle cursor }

def viewBatch (session : Session) (batch : Batch Item) : BatchView :=
  ⟨batch.answers.map (ItemView.ofItem session.names), batch.completion = .ended⟩

/-- Pulls items from a cursor that is not kept, and replies with them. -/
def enumerate (fuel : Nat) (session : Session) (cursor : Cursor) (wanted : Nat)
    (reply : BatchView → Reply) : Session × Reply :=
  match cursor.take fuel wanted session.state with
  | (batch, _, after) =>
      let final := session.withState after
      if batch.completion = .unfinished then final.refuse .unfinished
      else (final, reply (final.viewBatch batch))

end Session

end GroundLogic
