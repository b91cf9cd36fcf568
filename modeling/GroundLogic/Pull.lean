/-!
# Pulling answers one at a time

A stream of answers is asked for one answer at a time.  A pull produces an answer, or reports that
there is none left, or, when the number of steps it was allowed is used up, that the search is
unfinished.  What is not pulled is not computed.
-/

namespace GroundLogic

/-- The outcome of one pull. -/
inductive Pull (Answer : Type) where
  | found (answer : Answer)
  | ended
  | unfinished
  deriving DecidableEq, Repr

/-- How a sequence of pulls came to its end: the number asked for was reached, or the stream ended
before, or the steps were used up. -/
inductive Completion where
  | full
  | ended
  | unfinished
  deriving DecidableEq, Repr

structure Batch (Answer : Type) where
  answers : List Answer
  completion : Completion
  deriving DecidableEq, Repr

namespace Pull

def map {Answer NewAnswer : Type} (convert : Answer → NewAnswer) :
    Pull Answer → Pull NewAnswer
  | .found answer => .found (convert answer)
  | .ended => .ended
  | .unfinished => .unfinished

/-- Pulls up to a number of answers.  The end of the stream is looked for only while answers are
still wanted. -/
def take {Answer Source : Type} (next : Source → Pull Answer × Source) :
    Nat → Source → Batch Answer × Source
  | 0, source => (⟨[], .full⟩, source)
  | wanted + 1, source =>
      match next source with
      | (.found answer, rest) =>
          match take next wanted rest with
          | (batch, final) => (⟨answer :: batch.answers, batch.completion⟩, final)
      | (.ended, rest) => (⟨[], .ended⟩, rest)
      | (.unfinished, rest) => (⟨[], .unfinished⟩, rest)

end Pull

end GroundLogic
