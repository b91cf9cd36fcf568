import GroundLogic.Environment
import GroundLogic.Rule

/-!
# The journal

Everything that happens to an engine besides its answers is an event: arities that become fixed,
insertions, builds of rule bodies, definitions, instantiations and registrations.  Builds are
counted and never shown; every other event has a line of text at one of two levels of detail.
-/

namespace GroundLogic

inductive Event where
  | arityFixed (relation : Relation) (arity : Nat)
  | inserted (relation : Relation) (tuple : Tuple)
  /-- A rule was built, with the variables of the build numbered from `base`. -/
  | built (rule : Rule) (base : Nat)
  | defined (rule : Rule) (body : Goal)
  | instantiated (rule : Rule) (start : Environment)
  | registered (rule : Rule)

/-- How much detail a line of the journal is. -/
inductive Level where
  | debug
  | trace
  deriving DecidableEq, Repr

namespace Level

def text : Level → String
  | .debug => "debug"
  | .trace => "trace"

end Level

namespace Event

/-- The line that an event leaves in the journal, if it leaves one. -/
def line? (names : Naming) : Event → Option (Level × String)
  | .arityFixed relation arity =>
      some (.debug, "relation `" ++ relation.name ++ "` has arity " ++ toString arity)
  | .inserted relation tuple => some (.trace, relation.name ++ tuple.text)
  | .built _ _ => none
  | .defined rule body =>
      some (.debug, "defined rule " ++ rule.text ++ ": " ++ Goal.text names body)
  | .instantiated rule start =>
      some (.trace, "instantiated " ++ rule.name ++ ": " ++ start.text names)
  | .registered rule => some (.debug, "registering rule " ++ rule.text)

/-- Whether an event is a build counted under a key. -/
def isBuildOf (key : Nat) : Event → Bool
  | .built rule _ => rule.template.key = key
  | _ => false

/-- The number of variables that came with an event: a build creates its frame. -/
def created : Event → Nat
  | .built rule _ => rule.template.frameSize
  | _ => 0

end Event

/-- A record of events, the latest first. -/
abbrev Journal := List Event

namespace Journal

def builds (key : Nat) (journal : Journal) : Nat :=
  journal.countP (Event.isBuildOf key)

/-- The lines of the events after the first `seen`, oldest first. -/
def linesAfter (names : Naming) (seen : Nat) (journal : Journal) : List (Level × String) :=
  (journal.take (journal.length - seen)).reverse.filterMap (Event.line? names)

end Journal

end GroundLogic
