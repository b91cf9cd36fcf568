import GroundLogic.Inspect
import GroundLogic.Session.Command
import GroundLogic.Session.Cursor
import GroundLogic.Session.Environment
import GroundLogic.Session.Goal
import GroundLogic.Session.Relation
import GroundLogic.Session.Rule
import GroundLogic.Session.Term

/-!
# Running commands

`Session.run` answers one command and says what the session is afterwards.  A command is read in
full before it has an effect: an unknown handle or an unreadable operand refuses it at once, with
two exceptions.  Relations mentioned in a goal are frozen while the goal is read, and a frozen
relation refuses an insertion before the values are looked at.

Searches are given `fuel` steps for each answer.
-/

namespace GroundLogic

namespace Session

/-! ## Diagnosis -/

/-- Shows the lines of the events since the last time. -/
def lines (session : Session) : Session × Reply :=
  let journal := session.state.journal
  ({ session with eventsShown := journal.length },
    .lines (journal.linesAfter session.names session.eventsShown))

/-- Shows something in constructor notation.  Showing an invocation calls the rule, and showing
answers begins an enumeration. -/
def inspect (fuel : Nat) (session : Session) : Inspection → Session × Reply
  | .value constant => (session, .inspected constant.inspect)
  | .tuple tuple => (session, .inspected tuple.inspect)
  | .variable label =>
      match session.labels.get? label with
      | none => session.refuse .badInput
      | some unknown => (session, .inspected (unknown.inspect session.names))
  | .terms operands =>
      match session.pattern? operands with
      | none => session.refuse .badInput
      | some pattern => (session, .inspected (pattern.inspect session.names))
  | .rule handle =>
      match session.rules.get? handle with
      | none => session.refuse .badInput
      | some stored => (session, .inspected stored.rule.inspect)
  | .invocation handle operands =>
      match session.ruleCall? handle operands with
      | none => session.refuse .badInput
      | some (rule, arguments) =>
          match rule.invoke fuel arguments session.state with
          | .error error => session.refuse (.arity error)
          | .ok (none, after) => (session.withState after).refuse .unfinished
          | .ok (some invocation, after) =>
              (session.withState after, .inspected (invocation.inspect session.names))
  | .answers handle =>
      match session.queries.get? handle with
      | none => session.refuse .badInput
      | some query =>
          match query.enumerate session.state with
          | (answers, after) => (session.withState after, .inspected answers.inspect)

/-! ## Commands -/

def run (fuel : Nat) (session : Session) : Command → Session × Reply
  | .value constant => (session, .value constant)
  | .compareValues left right => (session, .comparison (left.compare right))
  | .decodeValue document =>
      match Value.ofJson? document with
      | none => session.refuse .undecodable
      | some constant => (session, .decodedValue constant)
  | .tuple tuple => (session, .tuple tuple)
  | .compareTuples left right => (session, .comparison (Tuple.compare left right))
  | .decodeTuple document =>
      match Tuple.ofJson? document with
      | none => session.refuse .undecodable
      | some tuple => (session, .decodedTuple tuple)
  | .wildcard => (session, .wildcard)
  | .declare label declaration => session.declare label declaration
  | .relabel label source => session.relabel label source
  | .compareVariables left right => session.compareVariables left right
  | .term operand => session.showTerm operand
  | .equalTerms left right => session.equalTerms left right
  | .createRelation handle name => session.createRelation handle name
  | .showRelation relation => session.showRelation relation
  | .insert relation tuple => session.insert relation tuple
  | .insertAll relation tuples => session.insertAll relation tuples
  | .query relation pattern limit => session.query fuel relation pattern limit
  | .contains relation pattern => session.contains relation pattern
  | .count relation pattern => session.count relation pattern
  | .openQuery handle relation pattern => session.openQuery handle relation pattern
  | .cloneCursor handle source => session.cloneCursor handle source
  | .next cursor wanted save => session.next fuel cursor wanted save
  | .drop cursor => session.drop cursor
  | .createEnvironment handle => session.storeEnvironment handle .empty
  | .showEnvironment environment => session.showEnvironment environment
  | .bind environment label constant handle => session.bind environment label constant handle
  | .merge left right handle => session.merge left right handle
  | .lookUp environment label => session.lookUp environment label
  | .compareEnvironments left right => session.compareEnvironments left right
  | .storeGoal handle goal => session.storeGoal handle goal
  | .validate goal => session.validate goal
  | .solve goal limit => session.solve fuel goal limit
  | .evaluate goal environment limit => session.evaluate fuel goal environment limit
  | .openSolve handle goal => session.openSolve handle goal
  | .openEvaluate handle goal environment => session.openEvaluate handle goal environment
  | .define definition => session.define definition
  | .showRule rule => session.showRule rule
  | .countBuilds rule => session.countBuilds rule
  | .invoke rule operands limit => session.invoke fuel rule operands limit
  | .succeeds rule operands => session.succeeds fuel rule operands
  | .storeQuery handle rule operands => session.storeQuery handle rule operands
  | .answers query limit => session.answers fuel query limit
  | .openAnswers handle query => session.openAnswers handle query
  | .createBook handle => session.storeBook handle .empty
  | .showBook book => session.showBook book
  | .cloneBook handle source => session.cloneBook handle source
  | .register book rule => session.register book rule
  | .findRule book name handle => session.findRule book name handle
  | .lines => session.lines
  | .inspect inspection => session.inspect fuel inspection
  | .malformed => session.refuse .badInput

def runAll (fuel : Nat) (session : Session) : List Command → Session × List Reply
  | [] => (session, [])
  | command :: commands =>
      match session.run fuel command with
      | (after, reply) =>
          match after.runAll fuel commands with
          | (final, replies) => (final, reply :: replies)

end Session

end GroundLogic
