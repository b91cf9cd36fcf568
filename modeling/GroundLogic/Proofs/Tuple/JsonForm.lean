import GroundLogic.Json
import Mathlib.Algebra.Ring.Int.Defs
import Mathlib.Data.List.Forall2

/-!
# The JSON form of tuples is exact

Values carry no tag in JSON, so a reader has only the document to tell their kinds apart.  What may
stand for a value (`Json.Scalar`) and which value it stands for (`Value.Written`) are said here
without reading anything.  Reading follows both: the kinds may be tried one after the other
(`Value.ofJson?_eq_firstFit?`), a tuple can be read just when every item of an array can, and what
has been read is written as it stood (`Tuple.json_exact`).
-/

namespace GroundLogic

/-! ## Integers -/

theorem exists_int64OfInt?_iff (number : Int) :
    (∃ word, int64OfInt? number = some word) ↔ -2 ^ 63 ≤ number ∧ number < 2 ^ 63 := by
  have least : Int64.minValue.toInt = -2 ^ 63 := Int64.toInt_minValue
  have greatest : Int64.maxValue.toInt = 2 ^ 63 - 1 := Int64.toInt_maxValue
  by_cases bounds : Int64.minValue.toInt ≤ number ∧ number ≤ Int64.maxValue.toInt
  · simp only [int64OfInt?, dif_pos bounds, Option.some.injEq, exists_eq', true_iff]
    omega
  · simp only [int64OfInt?, dif_neg bounds, reduceCtorEq, exists_false, false_iff]
    omega

/-! ## Values -/

/-- The document may stand for a value. -/
inductive Json.Scalar : Json → Prop
  | bool (truth : Bool) : Scalar (.bool truth)
  | integer {number : Int} (lower : -2 ^ 63 ≤ number) (upper : number < 2 ^ 63) :
      Scalar (.integer number)
  | string (text : String) : Scalar (.string text)

/-- The document is the one that stands for the value. -/
inductive Value.Written : Value → Json → Prop
  | bool (truth : Bool) : Written (.bool truth) (.bool truth)
  | int (number : Int64) : Written (.int number) (.integer number.toInt)
  | symbol (name : String) : Written (.symbol name) (.string name)

/-- The value of one kind that a document stands for. -/
def Kind.read? : Kind → Json → Option Value
  | .bool, .bool truth => some (.bool truth)
  | .int, .integer number => (int64OfInt? number).map .int
  | .symbol, .string text => some (.symbol text)
  | _, _ => none

namespace Value

/-- The kinds are tried in the order in which they are declared, and the first that fits decides. -/
def firstFit? (document : Json) : Option Value :=
  [Kind.bool, Kind.int, Kind.symbol].findSome? (Kind.read? · document)

theorem ofJson?_eq_firstFit? (document : Json) : ofJson? document = firstFit? document := by
  cases document with
  | integer number =>
      simp only [ofJson?, firstFit?, Kind.read?, List.findSome?]
      cases int64OfInt? number <;> rfl
  | _ => rfl

theorem written_toJson (value : Value) : Written value value.toJson := by
  cases value with
  | bool truth => exact .bool truth
  | int number => exact .int number
  | symbol name => exact .symbol name

theorem exists_ofJson?_iff (document : Json) :
    (∃ value, ofJson? document = some value) ↔ document.Scalar := by
  constructor
  · intro readable
    obtain ⟨value, read⟩ := readable
    cases document with
    | bool truth => exact .bool truth
    | string text => exact .string text
    | integer number =>
        obtain ⟨word, inRange, -⟩ := Option.map_eq_some_iff.1 read
        have bounds := (exists_int64OfInt?_iff number).1 ⟨word, inRange⟩
        exact .integer bounds.1 bounds.2
    | null => cases read
    | decimal written => cases read
    | array items => cases read
    | object fields => cases read
  · intro scalar
    cases scalar with
    | bool truth => exact ⟨.bool truth, rfl⟩
    | string text => exact ⟨.symbol text, rfl⟩
    | @integer number lower upper =>
        obtain ⟨word, inRange⟩ := (exists_int64OfInt?_iff number).2 ⟨lower, upper⟩
        exact ⟨.int word, by simp only [ofJson?, inRange, Option.map_some]⟩

theorem ofJson?_eq_none_iff (document : Json) : ofJson? document = none ↔ ¬document.Scalar := by
  rw [← exists_ofJson?_iff, Option.eq_none_iff_forall_ne_some, not_exists]

end Value

/-! ## Tuples -/

namespace Tuple

theorem written_toJson (tuple : Tuple) :
    List.Forall₂ Value.Written tuple (tuple.map Value.toJson) := by
  rw [List.forall₂_map_right_iff, List.forall₂_same]
  exact fun value _ => value.written_toJson

theorem ofItems?_cons_eq_some_iff (item : Json) (items : List Json) (tuple : Tuple) :
    ofItems? (item :: items) = some tuple ↔
      ∃ value values, Value.ofJson? item = some value ∧ ofItems? items = some values ∧
        tuple = value :: values := by
  simp only [ofItems?]
  cases Value.ofJson? item <;> cases ofItems? items <;> simp [eq_comm]

theorem ofItems?_eq_mapM (items : List Json) : ofItems? items = items.mapM Value.firstFit? := by
  induction items with
  | nil => rfl
  | cons item items inductionHypothesis =>
      rw [List.mapM_cons, ← inductionHypothesis, ← Value.ofJson?_eq_firstFit?, ofItems?]
      cases Value.ofJson? item <;> cases ofItems? items <;> rfl

theorem exists_ofItems?_iff (items : List Json) :
    (∃ tuple, ofItems? items = some tuple) ↔ ∀ item ∈ items, item.Scalar := by
  induction items with
  | nil => simp [ofItems?]
  | cons item items inductionHypothesis =>
      rw [List.forall_mem_cons, ← inductionHypothesis, ← Value.exists_ofJson?_iff]
      simp only [ofItems?_cons_eq_some_iff]
      constructor
      · intro readable
        obtain ⟨tuple, value, values, read, others, -⟩ := readable
        exact ⟨⟨value, read⟩, values, others⟩
      · intro readable
        obtain ⟨⟨value, read⟩, values, others⟩ := readable
        exact ⟨value :: values, value, values, read, others, rfl⟩

theorem map_toJson_of_ofItems? {items : List Json} {tuple : Tuple}
    (read : ofItems? items = some tuple) : tuple.map Value.toJson = items := by
  induction items generalizing tuple with
  | nil =>
      cases read
      rfl
  | cons item items inductionHypothesis =>
      obtain ⟨value, values, first, others, rfl⟩ := (ofItems?_cons_eq_some_iff ..).1 read
      rw [List.map_cons, Value.toJson_of_ofJson? first, inductionHypothesis others]

theorem toJson_of_ofJson? {document : Json} {tuple : Tuple}
    (read : ofJson? document = some tuple) : toJson tuple = document := by
  cases document with
  | array items => exact congrArg Json.array (map_toJson_of_ofItems? read)
  | _ => cases read

theorem exists_ofJson?_iff (document : Json) :
    (∃ tuple, ofJson? document = some tuple) ↔
      ∃ items, document = .array items ∧ ∀ item ∈ items, item.Scalar := by
  constructor
  · intro readable
    cases document with
    | array items => exact ⟨items, rfl, (exists_ofItems?_iff items).1 readable⟩
    | _ =>
        obtain ⟨tuple, read⟩ := readable
        cases read
  · intro scalars
    obtain ⟨items, rfl, scalar⟩ := scalars
    exact (exists_ofItems?_iff items).2 scalar

/-- One item that does not stand for a value spoils the array, wherever it is. -/
theorem ofJson?_spoiled {item : Json} (unreadable : ¬item.Scalar) (before after : List Json) :
    ofJson? (.array (before ++ item :: after)) = none := by
  rw [Option.eq_none_iff_forall_ne_some]
  intro tuple read
  have scalar := (exists_ofItems?_iff _).1 ⟨tuple, read⟩
  exact unreadable (scalar item (List.mem_append_right before List.mem_cons_self))

/-- Nothing is lost in JSON and nothing is let in.  A tuple is written as the array of what its
values stand for one by one, and read back as it was, with every kind kept.  A document can be read
just when it is an array of truth values, texts and integers of 64 bits; then it is read item by
item with the first kind that fits, and written again as it stood.  One item that stands for no
value spoils the whole, at any position. -/
theorem json_exact (tuple : Tuple) (document : Json) :
    ofJson? (toJson tuple) = some tuple ∧
    (∃ items, toJson tuple = .array items ∧ List.Forall₂ Value.Written tuple items) ∧
    ((∃ read, ofJson? document = some read) ↔
      ∃ items, document = .array items ∧ ∀ item ∈ items, item.Scalar) ∧
    (∀ read, ofJson? document = some read → toJson read = document) ∧
    (∀ items, ofJson? (.array items) = items.mapM Value.firstFit?) ∧
    ∀ before item after, ¬item.Scalar → ofJson? (.array (before ++ item :: after)) = none := by
  refine ⟨ofJson?_toJson tuple, ⟨_, rfl, written_toJson tuple⟩, exists_ofJson?_iff document, ?_,
    ofItems?_eq_mapM, ?_⟩
  · intro read success
    exact toJson_of_ofJson? success
  · intro before item after unreadable
    exact ofJson?_spoiled unreadable before after

/-- Values that look alike when they are written, and the ends of the range of integers. -/
def lookalikes : Tuple :=
  [.symbol "1", .int 1, .symbol "true", .bool true, .int Int64.minValue, .int Int64.maxValue]

/-- The same items in a JSON document. -/
def lookalikeItems : List Json :=
  [.string "1", .integer 1, .string "true", .bool true, .integer (-2 ^ 63), .integer (2 ^ 63 - 1)]

/-- The integer after the greatest one cannot be read, after items that can be. -/
theorem json_exact_lookalikes :
    ofJson? (.array lookalikeItems) = some lookalikes ∧
    toJson lookalikes = .array lookalikeItems ∧
    ¬(Json.integer (2 ^ 63)).Scalar ∧
    ofJson? (.array (lookalikeItems ++ [.integer (2 ^ 63)])) = none := by
  have written : toJson lookalikes = .array lookalikeItems := rfl
  have tooLarge : ¬(Json.integer (2 ^ 63)).Scalar := by
    intro scalar
    cases scalar with
    | integer lower upper => omega
  have exact := json_exact lookalikes (.array lookalikeItems)
  have spoils := exact.2.2.2.2.2 lookalikeItems (.integer (2 ^ 63)) [] tooLarge
  refine ⟨?_, written, tooLarge, spoils⟩
  rw [← written]
  exact exact.1

end Tuple

end GroundLogic
