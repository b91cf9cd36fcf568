import GroundLogic.Session.Operand

/-!
# Environments of a session

Binding, joining, looking up and comparing environments.  An environment under a handle never
changes; what results is stored on its own.
-/

namespace GroundLogic

namespace Session

def showEnvironment (session : Session) (handle : String) : Session × Reply :=
  match session.environments.get? handle with
  | none => session.refuse .badInput
  | some env => (session, .environment (.ofEnvironment session.names env))

/-- Stores the environment that an operation came to, or reports a conflict if it came to none.  The
handle keeps what it stood for in the second case. -/
def storeOutcome (session : Session) (handle : String) : Option Environment → Session × Reply
  | none => (session, .conflict)
  | some env => session.storeEnvironment handle env

def bind (session : Session) (environment label : String) (constant : Value)
    (handle : String) : Session × Reply :=
  match session.environments.get? environment, session.labels.get? label with
  | some env, some unknown => session.storeOutcome handle (env.bind unknown constant)
  | _, _ => session.refuse .badInput

def merge (session : Session) (left right handle : String) : Session × Reply :=
  match session.environments.get? left, session.environments.get? right with
  | some first, some second => session.storeOutcome handle (first.merge second)
  | _, _ => session.refuse .badInput

def lookUp (session : Session) (environment label : String) : Session × Reply :=
  match session.environments.get? environment, session.labels.get? label with
  | some env, some unknown => (session, .binding (env.get? unknown))
  | _, _ => session.refuse .badInput

def compareEnvironments (session : Session) (left right : String) : Session × Reply :=
  match session.environments.get? left, session.environments.get? right with
  | some first, some second =>
      (session, .environments (first = second) (first.isConsistent second))
  | _, _ => session.refuse .badInput

end Session

end GroundLogic
