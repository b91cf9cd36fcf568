import GroundLogic.Session.Operand

/-!
# Variables and terms of a session

Creating variables, giving them labels, and showing and comparing terms.
-/

namespace GroundLogic

namespace Session

def declare (session : Session) (label : String) (declaration : Declaration) :
    Session × Reply :=
  match session.state.declare declaration with
  | (unknown, declared) => (session.withState declared).storeVariable label unknown

def relabel (session : Session) (label source : String) : Session × Reply :=
  match session.labels.get? source with
  | none => session.refuse .badInput
  | some unknown => session.storeVariable label unknown

def compareVariables (session : Session) (left right : String) : Session × Reply :=
  match session.labels.get? left, session.labels.get? right with
  | some first, some second => (session, .comparison (compare first.id second.id))
  | _, _ => session.refuse .badInput

def showTerm (session : Session) (operand : Operand) : Session × Reply :=
  match session.term? operand with
  | none => session.refuse .badInput
  | some term =>
      (session, .term (term.text session.names) term.isOpen
        (TermView.ofTerm session.names term) term.value?)

def equalTerms (session : Session) (left right : Operand) : Session × Reply :=
  match session.term? left, session.term? right with
  | some first, some second => (session, .equal (first = second))
  | _, _ => session.refuse .badInput

end Session

end GroundLogic
