import GroundLogic.Tuple

/-!
# The JSON form of values and tuples

A value is written in JSON without any tag: a truth value, an integer or a string.  A tuple is the
array of its values.  Reading is exact: what is neither of the three, a number written with a
fraction or an exponent, and an integer beyond 64 bits are all refused.
-/

namespace GroundLogic

/-- A JSON document.  Numbers are kept apart by how they are written: `integer` has neither
fraction nor exponent, `decimal` is every other number, with its text. -/
inductive Json where
  | null
  | bool (truth : Bool)
  | integer (number : Int)
  | decimal (written : String)
  | string (text : String)
  | array (items : List Json)
  | object (fields : List (String × Json))
  deriving Inhabited, Repr

/-- The 64-bit integer of a given size, if there is one. -/
def int64OfInt? (number : Int) : Option Int64 :=
  if bounds : Int64.minValue.toInt ≤ number ∧ number ≤ Int64.maxValue.toInt then
    some (Int64.ofIntLE number bounds.1 bounds.2)
  else
    none

@[simp]
theorem int64OfInt?_toInt (number : Int64) : int64OfInt? number.toInt = some number := by
  have bounds := And.intro (Int64.minValue_le_toInt number) (Int64.toInt_le number)
  rw [int64OfInt?, dif_pos bounds, Int64.ofIntLE_toInt]

theorem toInt_of_int64OfInt? {number : Int} {word : Int64}
    (success : int64OfInt? number = some word) : word.toInt = number := by
  simp only [int64OfInt?] at success
  split at success
  · cases success
    exact Int64.toInt_ofIntLE
  · cases success

/-! ## Values -/

namespace Value

def toJson : Value → Json
  | .bool truth => .bool truth
  | .int number => .integer number.toInt
  | .symbol name => .string name

def ofJson? : Json → Option Value
  | .bool truth => some (.bool truth)
  | .integer number => (int64OfInt? number).map .int
  | .string text => some (.symbol text)
  | _ => none

@[simp]
theorem ofJson?_toJson (value : Value) : ofJson? value.toJson = some value := by
  cases value <;> simp [toJson, ofJson?]

theorem toJson_of_ofJson? {document : Json} {value : Value}
    (success : ofJson? document = some value) : value.toJson = document := by
  cases document with
  | bool truth =>
      cases success
      rfl
  | integer number =>
      obtain ⟨word, read, rfl⟩ := Option.map_eq_some_iff.1 success
      exact congrArg Json.integer (toInt_of_int64OfInt? read)
  | string text =>
      cases success
      rfl
  | null => cases success
  | decimal written => cases success
  | array items => cases success
  | object fields => cases success

end Value

/-! ## Tuples -/

namespace Tuple

def toJson (tuple : Tuple) : Json :=
  .array (tuple.map Value.toJson)

/-- The values with given JSON forms; one that is not a value spoils them all. -/
def ofItems? : List Json → Option Tuple
  | [] => some []
  | item :: items =>
      match Value.ofJson? item, ofItems? items with
      | some value, some values => some (value :: values)
      | _, _ => none

/-- The tuple with a given JSON form: an array that holds values only. -/
def ofJson? : Json → Option Tuple
  | .array items => ofItems? items
  | _ => none

@[simp]
theorem ofItems?_map_toJson (tuple : Tuple) :
    ofItems? (tuple.map Value.toJson) = some tuple := by
  induction tuple with
  | nil => rfl
  | cons value values inductionHypothesis =>
      simp [ofItems?, inductionHypothesis]

@[simp]
theorem ofJson?_toJson (tuple : Tuple) : ofJson? (toJson tuple) = some tuple :=
  ofItems?_map_toJson tuple

end Tuple

end GroundLogic
