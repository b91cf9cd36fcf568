import GroundLogic.Text.CommaList
import GroundLogic.Variable

/-!
# Terms

A term fills one position of a pattern or of a rule call: a value, a variable, or the wildcard,
which stands for anything and is never bound.
-/

namespace GroundLogic

/-- One position of a pattern or of a rule call. -/
inductive Term where
  | value (constant : Value)
  | var (unknown : Variable)
  | wildcard
  deriving DecidableEq, Repr, Inhabited

namespace Term

/-- Variables and the wildcard are open: they leave the position to be filled. -/
def isOpen : Term → Bool
  | .value _ => false
  | .var _ => true
  | .wildcard => true

def value? : Term → Option Value
  | .value constant => some constant
  | _ => none

def unknown? : Term → Option Variable
  | .var unknown => some unknown
  | _ => none

/-- How a term is written; the wildcard is an underscore. -/
def text (names : Naming) : Term → String
  | .value constant => constant.text
  | .var unknown => names unknown
  | .wildcard => "_"

end Term

/-- A pattern lists one term for each position. -/
abbrev Pattern := List Term

namespace Pattern

/-- A named pattern: the name followed by the terms in parentheses. -/
def text (names : Naming) (name : String) (pattern : Pattern) : String :=
  name ++ Text.parenthesized (pattern.map (Term.text names))

/-- The variables of a pattern, from left to right, with repetitions. -/
def unknowns (pattern : Pattern) : List Variable :=
  pattern.filterMap Term.unknown?

theorem mem_unknowns {pattern : Pattern} {unknown : Variable} :
    unknown ∈ pattern.unknowns ↔ Term.var unknown ∈ pattern := by
  simp only [unknowns, List.mem_filterMap]
  constructor
  · rintro ⟨term, member, found⟩
    cases term with
    | var known =>
        cases found
        exact member
    | value constant => cases found
    | wildcard => cases found
  · exact fun member => ⟨.var unknown, member, rfl⟩

end Pattern

end GroundLogic
