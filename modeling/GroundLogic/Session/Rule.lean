import GroundLogic.Session.Operand
import GroundLogic.Session.Reading

/-!
# Rules of a session

Defining and calling rules, enumerating the answers to a call, and keeping rules in books.
-/

namespace GroundLogic

namespace Session

def define (session : Session) (written : RuleExpression) : Session × Reply :=
  match session.readRule written with
  | (none, read) => read.refuse .badInput
  | (some rule, read) =>
      match rule.define read.state with
      | (.error error, after) => (read.withState after).refuse (.arity error)
      | (.ok defined, after) =>
          ({ read.withState after with
              rules := read.rules.put written.handle ⟨defined, some defined.template.key⟩ },
            .rule (.ofRule defined))

def showRule (session : Session) (handle : String) : Session × Reply :=
  match session.rules.get? handle with
  | none => session.refuse .badInput
  | some stored => (session, .rule (.ofRule stored.rule))

/-- Counts the builds of a rule that was defined under its handle. -/
def countBuilds (session : Session) (handle : String) : Session × Reply :=
  match (session.rules.get? handle).bind StoredRule.key with
  | none => session.refuse .badInput
  | some key => (session, .builds (session.state.journal.builds key))

def ruleCall? (session : Session) (handle : String) (operands : List Operand) :
    Option (Rule × Pattern) :=
  match session.rules.get? handle, session.pattern? operands with
  | some stored, some arguments => some (stored.rule, arguments)
  | _, _ => none

/-- Enumerates a query that is not kept, and replies with its answers. -/
def enumerateQuery (fuel : Nat) (session : Session) (query : RuleQuery) (wanted : Nat)
    (reply : BatchView → Reply) : Session × Reply :=
  match query.enumerate session.state with
  | (answers, after) =>
      (session.withState after).enumerate fuel (.answering answers) wanted reply

def invoke (fuel : Nat) (session : Session) (handle : String) (operands : List Operand)
    (limit : Limit) : Session × Reply :=
  match session.ruleCall? handle operands, limit.number? with
  | some (rule, arguments), some wanted =>
      match rule.invoke fuel arguments session.state with
      | .error error => session.refuse (.arity error)
      | .ok (none, after) => (session.withState after).refuse .unfinished
      | .ok (some (.holds truth), after) => (session.withState after, .holds truth)
      | .ok (some (.query query), after) =>
          (session.withState after).enumerateQuery fuel query wanted
            (.answers (query.text session.names))
  | _, _ => session.refuse .badInput

def succeeds (fuel : Nat) (session : Session) (handle : String) (operands : List Operand) :
    Session × Reply :=
  match session.ruleCall? handle operands with
  | none => session.refuse .badInput
  | some (rule, arguments) =>
      match rule.succeeds fuel arguments session.state with
      | .error error => session.refuse (.arity error)
      | .ok (none, after) => (session.withState after).refuse .unfinished
      | .ok (some truth, after) => (session.withState after, .holds truth)

def storeQuery (session : Session) (handle rule : String) (operands : List Operand) :
    Session × Reply :=
  match session.ruleCall? rule operands with
  | none => session.refuse .badInput
  | some (called, arguments) =>
      match called.query arguments with
      | .error error => session.refuse (.arity error)
      | .ok query =>
          ({ session with queries := session.queries.put handle query },
            .pattern (query.text session.names) (session.viewTerms query.pattern))

def answers (fuel : Nat) (session : Session) (handle : String) (limit : Limit) :
    Session × Reply :=
  match session.queries.get? handle, limit.number? with
  | some query, some wanted => session.enumerateQuery fuel query wanted .items
  | _, _ => session.refuse .badInput

def openAnswers (session : Session) (handle query : String) : Session × Reply :=
  match session.queries.get? query with
  | none => session.refuse .badInput
  | some stored =>
      match stored.enumerate session.state with
      | (answers, after) =>
          ((session.withState after).storeCursor handle (.answering answers), .opened)

/-! ## Rule books -/

def showBook (session : Session) (handle : String) : Session × Reply :=
  match session.books.get? handle with
  | none => session.refuse .badInput
  | some book => (session, .book book.names)

def cloneBook (session : Session) (handle source : String) : Session × Reply :=
  match session.books.get? source with
  | none => session.refuse .badInput
  | some book => session.storeBook handle book

def register (session : Session) (handle rule : String) : Session × Reply :=
  match session.books.get? handle, session.rules.get? rule with
  | some book, some stored =>
      match book.register stored.rule session.state with
      | (replaced, extended, after) =>
          ({ session.withState after with books := session.books.put handle extended },
            .registered (replaced.map .ofRule) extended.names)
  | _, _ => session.refuse .badInput

/-- Finds a rule in a book by name, and stores it if a handle is given. -/
def findRule (session : Session) (handle name : String) (target : Option String) :
    Session × Reply :=
  match session.books.get? handle with
  | none => session.refuse .badInput
  | some book =>
      match book.get? name, target with
      | some rule, some stored =>
          ({ session with rules := session.rules.put stored ⟨rule, none⟩ },
            .found (some (.ofRule rule)))
      | found, _ => (session, .found (found.map .ofRule))

end Session

end GroundLogic
