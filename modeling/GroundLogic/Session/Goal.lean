import GroundLogic.Session.Operand
import GroundLogic.Session.Reading

/-!
# Goals of a session

Storing and validating goals, and searching for their solutions at once or through a cursor.  The
environment of a search is looked up first, and an unknown one refuses the request.  Then the goal
is read, which freezes the relations that it mentions, even when the request is refused for the
sake of its handle or its limit, which are looked at last.
-/

namespace GroundLogic

namespace Session

def storeGoal (session : Session) (handle : Option String) (written : Expression) :
    Session × Reply :=
  match session.readGoal written, handle with
  | (some goal, read), some handle =>
      ({ read with goals := read.goals.put handle goal }, .goal (Goal.text read.names goal))
  | (_, read), _ => read.refuse .badInput

def validate (session : Session) (written : Expression) : Session × Reply :=
  match session.readGoal written with
  | (none, read) => read.refuse .badInput
  | (some goal, read) =>
      match Goal.validate goal read.state with
      | .error error => read.refuse (.arity error)
      | .ok validated => (read.withState validated, .valid)

def solve (fuel : Nat) (session : Session) (written : Expression) (limit : Limit) :
    Session × Reply :=
  match session.readGoal written, limit.number? with
  | (some goal, read), some wanted =>
      match Goal.solve goal read.state with
      | .error error => read.refuse (.arity error)
      | .ok (search, validated) =>
          (read.withState validated).enumerate fuel (.solving search) wanted .items
  | (_, read), _ => read.refuse .badInput

def evaluate (fuel : Nat) (session : Session) (written : Expression) (environment : String)
    (limit : Limit) : Session × Reply :=
  match session.environments.get? environment with
  | none => session.refuse .badInput
  | some env =>
      match session.readGoal written, limit.number? with
      | (some goal, read), some wanted =>
          read.enumerate fuel (.solving (Goal.start goal env read.state.database)) wanted .items
      | (_, read), _ => read.refuse .badInput

def openSolve (session : Session) (handle : Option String) (written : Expression) :
    Session × Reply :=
  match session.readGoal written, handle with
  | (some goal, read), some handle =>
      match Goal.solve goal read.state with
      | .error error => read.refuse (.arity error)
      | .ok (search, validated) =>
          ((read.withState validated).storeCursor handle (.solving search), .opened)
  | (_, read), _ => read.refuse .badInput

def openEvaluate (session : Session) (handle : Option String) (written : Expression)
    (environment : String) : Session × Reply :=
  match session.environments.get? environment with
  | none => session.refuse .badInput
  | some env =>
      match session.readGoal written, handle with
      | (some goal, read), some handle =>
          (read.storeCursor handle (.solving (Goal.start goal env read.state.database)), .opened)
      | (_, read), _ => read.refuse .badInput

end Session

end GroundLogic
