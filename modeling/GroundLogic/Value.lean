/-!
# Ground values

A value is a truth value, a 64-bit integer or a symbol.  The three kinds never mix: `1`, `"1"` and
`true` are different values.  Values are ordered by kind first and by content second, and that
order is a lawful one (`compare_eq_iff_eq`, `compare_swap`).
-/

namespace GroundLogic

/-- What sort of thing a value is. -/
inductive Kind where
  | bool
  | int
  | symbol
  deriving DecidableEq, Repr

namespace Kind

def text : Kind → String
  | .bool => "bool"
  | .int => "int"
  | .symbol => "symbol"

/-- Position of a kind in the order of values. -/
def rank : Kind → Nat
  | .bool => 0
  | .int => 1
  | .symbol => 2

def ofText? (name : String) : Option Kind :=
  if name = "bool" then some .bool
  else if name = "int" then some .int
  else if name = "symbol" then some .symbol
  else none

end Kind

inductive Value where
  | bool (truth : Bool)
  | int (number : Int64)
  | symbol (name : String)
  deriving DecidableEq, Repr, Inhabited

namespace Value

@[simp]
def kind : Value → Kind
  | .bool _ => .bool
  | .int _ => .int
  | .symbol _ => .symbol

def symbol? : Value → Option String
  | .symbol name => some name
  | _ => none

def int? : Value → Option Int64
  | .int number => some number
  | _ => none

/-- How a value is written: a symbol stands as it is, without quotes. -/
def text : Value → String
  | .bool true => "true"
  | .bool false => "false"
  | .int number => toString number.toInt
  | .symbol name => name

/-- Truth values come first, then integers, then symbols.  Within a kind `false` precedes `true`,
integers stand by size and symbols by their characters. -/
def compare : Value → Value → Ordering
  | .bool left, .bool right => Ord.compare left right
  | .int left, .int right => Ord.compare left right
  | .symbol left, .symbol right => Ord.compare left right
  | left, right => Ord.compare left.kind.rank right.kind.rank

instance : Ord Value :=
  ⟨Value.compare⟩

theorem compare_eq_iff_eq (left right : Value) :
    left.compare right = .eq ↔ left = right := by
  cases left <;> cases right <;>
    simp [Value.compare, kind, Kind.rank]

theorem compare_swap (left right : Value) :
    (left.compare right).swap = right.compare left := by
  cases left <;> cases right <;> exact Std.OrientedOrd.eq_swap.symm

end Value

end GroundLogic
