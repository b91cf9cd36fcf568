import GroundLogic.Proofs.Environment.Union
import Mathlib.Data.List.Sort

/-!
# Merging as a partial monoid

Two environments can be merged when no variable has two different values in them, and the merge is
the least environment that extends both.  Merging is commutative, idempotent and associative, where
associativity includes that both groupings fail together; the empty environment is its unit, and
every environment is made from it by binding (`merge_monoid`).

The bindings of an environment may be gone through in any order.  An order is a permutation of the
list of bindings; comparing, merging, binding and writing come to the same in all of them.
-/

namespace GroundLogic

namespace Environment

variable {env extended left right joined whole : Environment}
  {bindings others order : List (Variable × Value)}

/-! ## Lists of bindings -/

/-- No variable is listed with two different values. -/
def SingleValued (bindings : List (Variable × Value)) : Prop :=
  ∀ unknown first second, (unknown, first) ∈ bindings → (unknown, second) ∈ bindings →
    first = second

theorem singleValued_bindings (env : Environment) : SingleValued env.bindings := by
  intro unknown first second firstMember secondMember
  have firstFound := get?_eq_some_iff.2 firstMember
  have secondFound := get?_eq_some_iff.2 secondMember
  rw [firstFound] at secondFound
  exact Option.some.inj secondFound

theorem SingleValued.of_subset (single : SingleValued bindings) (subset : others ⊆ bindings) :
    SingleValued others :=
  fun unknown first second firstMember secondMember =>
    single unknown first second (subset firstMember) (subset secondMember)

/-- Without a second value for the same variable, what is listed is what is found first. -/
theorem SingleValued.valueIn_eq_some_iff (single : SingleValued bindings) {unknown : Variable}
    {value : Value} : valueIn unknown bindings = some value ↔ (unknown, value) ∈ bindings := by
  induction bindings with
  | nil => simp [valueIn]
  | cons head tail inductionHypothesis =>
      have inTail := inductionHypothesis (single.of_subset (List.subset_cons_self ..))
      obtain ⟨bound, known⟩ := head
      simp only [valueIn]
      by_cases here : bound = unknown
      · subst here
        rw [if_pos rfl, Option.some.injEq]
        constructor
        · rintro rfl
          exact List.mem_cons_self ..
        · exact single bound known value (List.mem_cons_self ..)
      · have different : (unknown, value) ≠ (bound, known) :=
          fun same => here (congrArg Prod.fst same).symm
        rw [if_neg here, inTail, List.mem_cons, or_iff_right different]

/-! ## Binding many variables -/

/-- Binding one variable after the other succeeds when no variable would get two values. -/
theorem isSome_bindAll_iff :
    (env.bindAll bindings).isSome ↔ SingleValued (env.bindings ++ bindings) := by
  rw [Option.isSome_iff_exists]
  constructor
  · intro success
    obtain ⟨extended, bound⟩ := success
    apply (singleValued_bindings extended).of_subset
    intro binding member
    apply get?_eq_some_iff.1
    apply (bindAll_eq_some_iff.1 bound binding.1 binding.2).2
    rw [get?_eq_some_iff]
    exact List.mem_append.1 member
  · intro single
    let values : Assignment := fun unknown =>
      (valueIn unknown (env.bindings ++ bindings)).getD default
    have listed : ∀ binding ∈ env.bindings ++ bindings, values binding.1 = binding.2 := by
      intro binding member
      simp only [values, single.valueIn_eq_some_iff.2 member, Option.getD_some]
    have within : env.Within values := fun unknown value found =>
      listed (unknown, value) (List.mem_append_left _ (get?_eq_some_iff.1 found))
    obtain ⟨extended, bound, _⟩ := exists_bindAll_within within
      fun binding member => listed binding (List.mem_append_right _ member)
    exact ⟨extended, bound⟩

/-- Order and repetitions do not matter. -/
theorem bindAll_congr (same : ∀ binding, binding ∈ others ↔ binding ∈ bindings) :
    env.bindAll others = env.bindAll bindings := by
  apply Option.ext
  intro extended
  simp only [bindAll_eq_some_iff, same]

/-- To merge is to bind what the other environment binds, in any order. -/
theorem merge_eq_bindAll (perm : order.Perm right.bindings) :
    left.merge right = left.bindAll order := by
  apply Option.ext
  intro joined
  simp only [merge_eq_some_iff, IsUnion, bindAll_eq_some_iff, perm.mem_iff, get?_eq_some_iff]

theorem bindAll_empty (env : Environment) : empty.bindAll env.bindings = some env := by
  rw [bindAll_eq_some_iff]
  intro tested known
  simp only [get?_empty, reduceCtorEq, false_or]
  exact get?_eq_some_iff

/-! ## The loops behind comparing and merging -/

/-- Going through the first environment in any order tells whether the two are consistent. -/
theorem all_eq_isConsistent (perm : order.Perm left.bindings) :
    order.all right.agreesWith = left.isConsistent right := by
  rw [perm.all_eq, Bool.eq_iff_iff, all_agreesWith_iff, isConsistent_iff]

theorem isConsistent_comm (left right : Environment) :
    left.isConsistent right = right.isConsistent left := by
  rw [Bool.eq_iff_iff, isConsistent_iff, isConsistent_iff]
  constructor <;>
    exact fun agree unknown first second inOne inOther =>
      (agree unknown second first inOther inOne).symm

/-- The bindings of the second environment may be added in any order. -/
theorem foldl_insert_eq (perm : order.Perm right.bindings) :
    order.foldl (fun joined binding => joined.insert binding.1 binding.2) left =
      right.bindings.foldl (fun joined binding => joined.insert binding.1 binding.2) left := by
  have single := singleValued_bindings right
  have sameValues : ∀ unknown, valueIn unknown order = valueIn unknown right.bindings := by
    intro unknown
    apply Option.ext
    intro value
    rw [(single.of_subset perm.subset).valueIn_eq_some_iff, single.valueIn_eq_some_iff,
      perm.mem_iff]
  apply ext_get?
  intro unknown
  rw [get?_foldl_insert, get?_foldl_insert, sameValues]

/-! ## Least extensions -/

/-- Of the environments that extend two others, the least. -/
structure IsLeastAbove (left right joined : Environment) : Prop where
  extends_left : joined.Extends left
  extends_right : joined.Extends right
  least : ∀ other : Environment, other.Extends left → other.Extends right → other.Extends joined

theorem IsUnion.isLeastAbove (union : joined.IsUnion left right) :
    IsLeastAbove left right joined := by
  refine ⟨fun unknown value found => (union unknown value).2 (Or.inl found),
    fun unknown value found => (union unknown value).2 (Or.inr found), ?_⟩
  intro other overLeft overRight unknown value found
  rcases (union unknown value).1 found with inLeft | inRight
  · exact overLeft unknown value inLeft
  · exact overRight unknown value inRight

/-- Merging succeeds when some environment extends both, and gives the least of those. -/
theorem merge_eq_some_iff_isLeastAbove :
    left.merge right = some joined ↔ IsLeastAbove left right joined := by
  constructor
  · exact fun success => (isUnion_of_merge success).isLeastAbove
  · intro least
    have agree : ∀ unknown first second, left.get? unknown = some first →
        right.get? unknown = some second → first = second := by
      intro unknown first second inLeft inRight
      have above := least.extends_left unknown first inLeft
      rw [least.extends_right unknown second inRight] at above
      exact (Option.some.inj above).symm
    obtain ⟨other, success⟩ := exists_merge_of_agree agree
    have otherLeast := (isUnion_of_merge success).isLeastAbove
    have above := least.least other otherLeast.extends_left otherLeast.extends_right
    have below := otherLeast.least joined least.extends_left least.extends_right
    have same : other = joined := ext_bindings fun unknown value =>
      ⟨below unknown value, above unknown value⟩
    rw [success, same]

theorem isSome_merge (left right : Environment) :
    (left.merge right).isSome = left.isConsistent right := by
  simp only [merge]
  cases left.isConsistent right <;> rfl

/-! ## Associativity -/

/-- Three environments are merged into the union of all of them, when there is one. -/
theorem bind_merge_eq_some_iff {first second third : Environment} :
    ((first.merge second).bind fun joined => joined.merge third) = some whole ↔
      ∀ unknown value, whole.get? unknown = some value ↔
        first.get? unknown = some value ∨ second.get? unknown = some value ∨
          third.get? unknown = some value := by
  rw [Option.bind_eq_some_iff]
  constructor
  · intro success unknown value
    obtain ⟨joined, early, late⟩ := success
    rw [isUnion_of_merge late, isUnion_of_merge early, or_assoc]
  · intro union
    -- The union of all three keeps the first two from disagreeing.
    have agree : ∀ unknown one other, first.get? unknown = some one →
        second.get? unknown = some other → one = other := by
      intro unknown one other inFirst inSecond
      have found := (union unknown one).2 (Or.inl inFirst)
      rw [(union unknown other).2 (Or.inr (Or.inl inSecond))] at found
      exact (Option.some.inj found).symm
    obtain ⟨joined, early⟩ := exists_merge_of_agree agree
    refine ⟨joined, early, merge_eq_some_iff.2 fun unknown value => ?_⟩
    rw [union, isUnion_of_merge early, or_assoc]

theorem merge_assoc (first second third : Environment) :
    ((first.merge second).bind fun joined => joined.merge third) =
      (second.merge third).bind fun joined => first.merge joined := by
  have turned : (fun joined => first.merge joined) = fun joined => joined.merge first :=
    funext fun joined => merge_comm first joined
  apply Option.ext
  intro whole
  rw [turned, bind_merge_eq_some_iff, bind_merge_eq_some_iff]
  constructor <;>
    · intro union unknown value
      rw [union]
      tauto

/-! ## Writing -/

/-- Sorted by the age of the variables, the bindings stand as they are kept. -/
theorem mergeSort_eq_bindings (perm : order.Perm env.bindings) :
    order.mergeSort (fun earlier later => earlier.1.id ≤ later.1.id) = env.bindings := by
  have sorted : (order.mergeSort fun earlier later => earlier.1.id ≤ later.1.id).Pairwise
      fun earlier later => (decide (earlier.1.id ≤ later.1.id)) = true := by
    apply List.pairwise_mergeSort
    · intro first second third early late
      simp only [decide_eq_true_eq] at early late ⊢
      exact Nat.le_trans early late
    · intro first second
      simp only [Bool.or_eq_true, decide_eq_true_eq]
      exact Nat.le_total ..
  have kept : env.bindings.Pairwise
      fun earlier later => (decide (earlier.1.id ≤ later.1.id)) = true :=
    env.ordered.imp fun below => decide_eq_true (Nat.le_of_lt below)
  have samePairs := (List.mergeSort_perm order
    fun earlier later => earlier.1.id ≤ later.1.id).trans perm
  refine samePairs.eq_of_pairwise ?_ sorted kept
  rintro ⟨unknown, first⟩ ⟨other, second⟩ firstMember secondMember below above
  have same : unknown = other := congrArg Variable.mk
    (Nat.le_antisymm (of_decide_eq_true below) (of_decide_eq_true above))
  subst same
  rw [singleValued_bindings env unknown first second (samePairs.mem_iff.1 firstMember)
    secondMember]

/-- A list of bindings between braces, in the order in which it stands. -/
def listed (names : Naming) (bindings : List (Variable × Value)) : String :=
  "\x7b" ++
    Text.commaSeparated (bindings.map fun binding => names binding.1 ++ ": " ++ binding.2.text) ++
  "\x7d"

/-! ## The laws -/

/-- Comparing two environments tells whether some variable has two different values in them,
whichever of them is gone through, and in whatever order. -/
structure Compared (first second : Environment) : Prop where
  agree : first.isConsistent second = true ↔
    ∀ unknown one other, first.get? unknown = some one → second.get? unknown = some other →
      one = other
  through_first : ∀ order : List (Variable × Value), order.Perm first.bindings →
    order.all second.agreesWith = first.isConsistent second
  through_second : ∀ order : List (Variable × Value), order.Perm second.bindings →
    order.all first.agreesWith = first.isConsistent second

/-- Merging is a partial operation that gives least upper bounds, and a commutative, idempotent and
associative one with a unit.  The bindings of the second environment may be added in any order. -/
structure Merged (first second third : Environment) : Prop where
  defined : (first.merge second).isSome = first.isConsistent second
  least : ∀ joined, first.merge second = some joined ↔ IsLeastAbove first second joined
  added : ∀ order : List (Variable × Value), order.Perm second.bindings →
    first.merge second =
      if first.isConsistent second then
        some (order.foldl (fun joined binding => joined.insert binding.1 binding.2) first)
      else none
  comm : first.merge second = second.merge first
  idem : first.merge first = some first
  unit : first.merge .empty = some first
  assoc : ((first.merge second).bind fun joined => joined.merge third) =
    (second.merge third).bind fun joined => first.merge joined

/-- A list of pairs can be bound when the pairs and the environment give no variable two values, and
order and repetitions do not matter.  Every environment is bound from nothing, and merging is binding
the bindings of another environment in any order. -/
structure Bound (first second : Environment) (bindings : List (Variable × Value)) : Prop where
  defined : (first.bindAll bindings).isSome ↔ SingleValued (first.bindings ++ bindings)
  congr : ∀ others : List (Variable × Value),
    (∀ binding, binding ∈ others ↔ binding ∈ bindings) →
      first.bindAll others = first.bindAll bindings
  generates : empty.bindAll first.bindings = some first
  merges : ∀ order : List (Variable × Value), order.Perm second.bindings →
    first.merge second = first.bindAll order

/-- Environments form a partial monoid under merging, commutative and idempotent, and binding
generates it.  All that is done binding by binding comes to the same in every order, and so does
writing, which sorts the bindings. -/
theorem merge_monoid (first second third : Environment) (bindings : List (Variable × Value)) :
    Compared first second ∧ Merged first second third ∧ Bound first second bindings ∧
      ∀ (names : Naming) (order : List (Variable × Value)), order.Perm first.bindings →
        first.text names =
          listed names (order.mergeSort fun earlier later => earlier.1.id ≤ later.1.id) := by
  refine ⟨⟨isConsistent_iff first second, fun _ => all_eq_isConsistent, fun order perm => ?_⟩,
    ⟨isSome_merge first second, fun _ => merge_eq_some_iff_isLeastAbove, fun order perm => ?_,
      merge_comm first second, merge_of_extends fun _ _ => id,
      merge_of_extends (extends_empty first), merge_assoc first second third⟩,
    ⟨isSome_bindAll_iff, fun _ => bindAll_congr, bindAll_empty first,
      fun _ => merge_eq_bindAll⟩, fun names order perm => ?_⟩
  · rw [isConsistent_comm]
    exact all_eq_isConsistent perm
  · rw [foldl_insert_eq perm, merge]
  · rw [mergeSort_eq_bindings perm]
    rfl

/-- The places at both ends of a stretch. -/
def hither : Environment :=
  ⟨[(⟨1⟩, .symbol "a"), (⟨2⟩, .symbol "b")], by decide⟩

/-- The places at both ends of the next one. -/
def thither : Environment :=
  ⟨[(⟨2⟩, .symbol "b"), (⟨3⟩, .symbol "c")], by decide⟩

/-- The place in the middle is the same, so the stretches can be merged, from either side.  It does
not matter which end of the second stretch is bound first, nor which is met first for writing. -/
theorem merge_monoid_stretches :
    [(⟨3⟩, .symbol "c"), (⟨2⟩, .symbol "b")].Perm thither.bindings ∧
      hither.merge thither = hither.bindAll [(⟨3⟩, .symbol "c"), (⟨2⟩, .symbol "b")] ∧
      (hither.merge thither).isSome = true ∧ hither.merge thither = thither.merge hither ∧
      thither.text (fun _ => "_") = listed (fun _ => "_")
        ([(⟨3⟩, .symbol "c"), (⟨2⟩, .symbol "b")].mergeSort
          fun earlier later => earlier.1.id ≤ later.1.id) := by
  have swapped : [(⟨3⟩, .symbol "c"), (⟨2⟩, .symbol "b")].Perm thither.bindings :=
    .swap ..
  obtain ⟨_, merged, bound, _⟩ := merge_monoid hither thither .empty []
  obtain ⟨_, _, _, written⟩ := merge_monoid thither hither .empty []
  exact ⟨swapped, bound.merges _ swapped, merged.defined.trans (by decide), merged.comm,
    written _ _ swapped⟩

end Environment

end GroundLogic
