import GroundLogic.Term

/-!
# Binding environments

An environment gives values to finitely many variables.  It is kept as a list in increasing order
of variables, so that two environments with the same bindings are equal (`ext_get?`) and the order
in which they were bound leaves no trace.  Binding never overwrites: a second, different value for
a variable is refused.
-/

namespace GroundLogic

/-- Finitely many bindings, in increasing order of variables, one for each bound variable. -/
structure Environment where
  bindings : List (Variable × Value)
  ordered : bindings.Pairwise (fun earlier later => earlier.1.id < later.1.id)
  deriving DecidableEq

namespace Environment

/-! ## Looking up -/

/-- The value that a list of bindings gives to a variable. -/
def valueIn (unknown : Variable) : List (Variable × Value) → Option Value
  | [] => none
  | (bound, value) :: rest =>
      if bound = unknown then some value else valueIn unknown rest

def get? (env : Environment) (unknown : Variable) : Option Value :=
  valueIn unknown env.bindings

def isBound (env : Environment) (unknown : Variable) : Bool :=
  (env.get? unknown).isSome

def domain (env : Environment) : List Variable :=
  env.bindings.map Prod.fst

def size (env : Environment) : Nat :=
  env.bindings.length

def isEmpty (env : Environment) : Bool :=
  env.bindings.isEmpty

theorem valueIn_eq_none_of_forall_lt
    {unknown : Variable} {bindings : List (Variable × Value)}
    (above : ∀ binding ∈ bindings, unknown.id < binding.1.id) :
    valueIn unknown bindings = none := by
  induction bindings with
  | nil => rfl
  | cons head tail inductionHypothesis =>
      have different : head.1 ≠ unknown := by
        intro equality
        have headAbove := above head (List.mem_cons_self ..)
        rw [equality] at headAbove
        exact Nat.lt_irrefl _ headAbove
      simp only [valueIn, if_neg different]
      exact inductionHypothesis fun binding member =>
        above binding (List.mem_cons_of_mem _ member)

/-- An environment is determined by the value it gives to each variable. -/
theorem ext_get? {left right : Environment}
    (agree : ∀ unknown, left.get? unknown = right.get? unknown) :
    left = right := by
  obtain ⟨leftBindings, leftOrdered⟩ := left
  obtain ⟨rightBindings, rightOrdered⟩ := right
  simp only [get?] at agree
  suffices equality : leftBindings = rightBindings by
    subst equality
    rfl
  induction leftBindings generalizing rightBindings with
  | nil =>
      cases rightBindings with
      | nil => rfl
      | cons head tail =>
          have absurdity := agree head.1
          simp [valueIn] at absurdity
  | cons head tail inductionHypothesis =>
      cases rightBindings with
      | nil =>
          have absurdity := agree head.1
          simp [valueIn] at absurdity
      | cons first rest =>
          rw [List.pairwise_cons] at leftOrdered rightOrdered
          have tailNone : ∀ unknown : Variable,
              unknown.id ≤ head.1.id → valueIn unknown tail = none :=
            fun unknown below => valueIn_eq_none_of_forall_lt fun binding member =>
              Nat.lt_of_le_of_lt below (leftOrdered.1 binding member)
          have restNone : ∀ unknown : Variable,
              unknown.id ≤ first.1.id → valueIn unknown rest = none :=
            fun unknown below => valueIn_eq_none_of_forall_lt fun binding member =>
              Nat.lt_of_le_of_lt below (rightOrdered.1 binding member)
          have sameVariable : head.1 = first.1 := by
            apply Decidable.byContradiction
            intro different
            have atHead := agree head.1
            have atFirst := agree first.1
            simp only [valueIn, if_true, if_neg (Ne.symm different), if_neg different]
              at atHead atFirst
            rcases Nat.le_total head.1.id first.1.id with below | above
            · rw [restNone head.1 below] at atHead
              exact absurd atHead (by simp)
            · rw [tailNone first.1 above] at atFirst
              exact absurd atFirst (by simp)
          have sameValue : head.2 = first.2 := by
            have atHead := agree head.1
            simpa only [valueIn, if_true, sameVariable, Option.some.injEq] using atHead
          have sameHead : head = first := Prod.ext sameVariable sameValue
          have sameTail : tail = rest := by
            apply inductionHypothesis leftOrdered.2 rest rightOrdered.2
            intro unknown
            by_cases atHead : head.1 = unknown
            · rw [tailNone unknown (Nat.le_of_eq (congrArg Variable.id atHead.symm)),
                restNone unknown
                  (Nat.le_of_eq (congrArg Variable.id (atHead.symm.trans sameVariable)))]
            · have here := agree unknown
              simpa only [valueIn, if_neg atHead, if_neg (sameVariable ▸ atHead)] using here
          rw [sameHead, sameTail]

/-- Among ordered bindings, those that are listed are those that are found. -/
theorem valueIn_eq_some_iff
    {bindings : List (Variable × Value)}
    (ordered : bindings.Pairwise (fun earlier later => earlier.1.id < later.1.id))
    {unknown : Variable} {value : Value} :
    valueIn unknown bindings = some value ↔ (unknown, value) ∈ bindings := by
  induction bindings with
  | nil => simp [valueIn]
  | cons head tail inductionHypothesis =>
      obtain ⟨bound, known⟩ := head
      have headBelow := (List.pairwise_cons.1 ordered).1
      have inTail := inductionHypothesis (List.pairwise_cons.1 ordered).2
      simp only [valueIn]
      by_cases here : bound = unknown
      · subst here
        have notInTail : (bound, value) ∉ tail := fun member =>
          Nat.lt_irrefl _ (headBelow (bound, value) member)
        simp [notInTail, eq_comm]
      · rw [if_neg here, inTail]
        have different : unknown ≠ bound := fun equality => here equality.symm
        simp [different]

theorem get?_eq_some_iff {env : Environment} {unknown : Variable} {value : Value} :
    env.get? unknown = some value ↔ (unknown, value) ∈ env.bindings :=
  valueIn_eq_some_iff env.ordered

/-! ## Binding -/

def empty : Environment :=
  ⟨[], List.Pairwise.nil⟩

instance : Inhabited Environment :=
  ⟨empty⟩

@[simp]
theorem get?_empty (unknown : Variable) : empty.get? unknown = none :=
  rfl

/-- The bindings with one more, put at its place.  A variable that is there already keeps its
value. -/
def insertInto (unknown : Variable) (value : Value) :
    List (Variable × Value) → List (Variable × Value)
  | [] => [(unknown, value)]
  | head :: tail =>
      if unknown.id < head.1.id then (unknown, value) :: head :: tail
      else if head.1.id < unknown.id then head :: insertInto unknown value tail
      else head :: tail

theorem mem_insertInto
    {unknown : Variable} {value : Value}
    {bindings : List (Variable × Value)} {binding : Variable × Value}
    (member : binding ∈ insertInto unknown value bindings) :
    binding = (unknown, value) ∨ binding ∈ bindings := by
  induction bindings with
  | nil => exact Or.inl (List.mem_singleton.1 member)
  | cons head tail inductionHypothesis =>
      simp only [insertInto] at member
      split at member
      · exact List.mem_cons.1 member
      · split at member
        · rcases List.mem_cons.1 member with rfl | inTail
          · exact Or.inr (List.mem_cons_self ..)
          · rcases inductionHypothesis inTail with new | old
            · exact Or.inl new
            · exact Or.inr (List.mem_cons_of_mem _ old)
        · exact Or.inr member

theorem ordered_insertInto
    (unknown : Variable) (value : Value) {bindings : List (Variable × Value)}
    (ordered : bindings.Pairwise (fun earlier later => earlier.1.id < later.1.id)) :
    (insertInto unknown value bindings).Pairwise
      (fun earlier later => earlier.1.id < later.1.id) := by
  induction bindings with
  | nil => exact List.pairwise_singleton _ _
  | cons head tail inductionHypothesis =>
      rw [List.pairwise_cons] at ordered
      simp only [insertInto]
      split
      · next below =>
          refine List.pairwise_cons.2 ⟨fun binding member => ?_, List.pairwise_cons.2 ordered⟩
          rcases List.mem_cons.1 member with rfl | inTail
          · exact below
          · exact Nat.lt_trans below (ordered.1 binding inTail)
      · split
        · next above =>
            refine List.pairwise_cons.2 ⟨fun binding member => ?_, inductionHypothesis ordered.2⟩
            rcases mem_insertInto member with rfl | old
            · exact above
            · exact ordered.1 binding old
        · exact List.pairwise_cons.2 ordered

/-- The environment with one more binding; a bound variable keeps its value. -/
def insert (env : Environment) (unknown : Variable) (value : Value) : Environment :=
  ⟨insertInto unknown value env.bindings, ordered_insertInto unknown value env.ordered⟩

/-- Binds a variable: an equal value changes nothing and a different one is refused. -/
def bind (env : Environment) (unknown : Variable) (value : Value) : Option Environment :=
  match env.get? unknown with
  | some known => if known = value then some env else none
  | none => some (env.insert unknown value)

/-- The new binding answers for its own variable if that was unbound, and for no other. -/
theorem valueIn_insertInto
    (unknown : Variable) (value : Value) {bindings : List (Variable × Value)}
    (ordered : bindings.Pairwise (fun earlier later => earlier.1.id < later.1.id))
    (tested : Variable) :
    valueIn tested (insertInto unknown value bindings) =
      (valueIn tested bindings).or (if unknown = tested then some value else none) := by
  induction bindings with
  | nil => rfl
  | cons head tail inductionHypothesis =>
      have tailOrdered := (List.pairwise_cons.1 ordered).2
      have headBelow := (List.pairwise_cons.1 ordered).1
      simp only [insertInto]
      split
      · next below =>
          by_cases same : unknown = tested
          · have unbound : valueIn tested (head :: tail) = none := by
              apply valueIn_eq_none_of_forall_lt
              intro binding member
              rw [← same]
              rcases List.mem_cons.1 member with rfl | inTail
              · exact below
              · exact Nat.lt_trans below (headBelow binding inTail)
            rw [unbound]
            simp [valueIn, same]
          · simp [valueIn, same]
      · split
        · simp only [valueIn, inductionHypothesis tailOrdered]
          split <;> rfl
        · next notBelow notAbove =>
            have sameId : head.1.id = unknown.id :=
              Nat.le_antisymm (Nat.le_of_not_lt notBelow) (Nat.le_of_not_lt notAbove)
            have sameVariable : head.1 = unknown := congrArg Variable.mk sameId
            by_cases same : unknown = tested
            · simp [valueIn, sameVariable, same]
            · simp [same]

theorem get?_insert (env : Environment) (unknown : Variable) (value : Value)
    (tested : Variable) :
    (env.insert unknown value).get? tested =
      (env.get? tested).or (if unknown = tested then some value else none) :=
  valueIn_insertInto unknown value env.ordered tested

theorem get?_of_bind {env extended : Environment} {unknown : Variable} {value : Value}
    (success : env.bind unknown value = some extended) (tested : Variable) :
    extended.get? tested =
      if unknown = tested then some value else env.get? tested := by
  simp only [bind] at success
  split at success
  · next known equality =>
      split at success
      · next same =>
          cases success
          by_cases atVariable : unknown = tested
          · rw [if_pos atVariable, ← atVariable, equality, same]
          · rw [if_neg atVariable]
      · cases success
  · next unbound =>
      cases success
      rw [get?_insert]
      by_cases same : unknown = tested
      · rw [if_pos same, if_pos same, ← same, unbound]
        rfl
      · rw [if_neg same, if_neg same]
        exact Option.or_none

/-- Binding fails exactly on a variable that has another value. -/
theorem bind_eq_none_iff {env : Environment} {unknown : Variable} {value : Value} :
    env.bind unknown value = none ↔
      ∃ known, env.get? unknown = some known ∧ known ≠ value := by
  simp only [bind]
  split
  · next known equality =>
      rw [equality]
      by_cases same : known = value <;> simp [same]
  · next unbound => simp [unbound]

/-! ## Comparing and joining -/

/-- Whether an environment leaves room for a binding: its variable is unbound or has that value. -/
def agreesWith (env : Environment) (binding : Variable × Value) : Bool :=
  match env.get? binding.1 with
  | some known => known = binding.2
  | none => true

/-- Whether no variable has two different values in the two environments.  Only the smaller one is
gone through. -/
def isConsistent (left right : Environment) : Bool :=
  if left.size ≤ right.size then
    left.bindings.all right.agreesWith
  else
    right.bindings.all left.agreesWith

/-- All bindings of both environments, or nothing when they disagree on some variable. -/
def merge (left right : Environment) : Option Environment :=
  if left.isConsistent right then
    some (right.bindings.foldl
      (fun joined binding => joined.insert binding.1 binding.2) left)
  else
    none

/-- Going through one environment finds every variable that has different values in the two. -/
theorem all_agreesWith_iff (small large : Environment) :
    small.bindings.all large.agreesWith = true ↔
      ∀ unknown first second,
        small.get? unknown = some first → large.get? unknown = some second →
          first = second := by
  rw [List.all_eq_true]
  constructor
  · intro allAgree unknown first second inSmall inLarge
    have agrees := allAgree _ (get?_eq_some_iff.1 inSmall)
    simp only [agreesWith, inLarge, decide_eq_true_eq] at agrees
    exact agrees.symm
  · intro consistent binding member
    simp only [agreesWith]
    split
    · next known inLarge =>
        have same := consistent binding.1 binding.2 known (get?_eq_some_iff.2 member) inLarge
        exact decide_eq_true same.symm
    · rfl

/-- Two environments are consistent when no variable has two different values in them, whichever
of them is the smaller. -/
theorem isConsistent_iff (left right : Environment) :
    left.isConsistent right = true ↔
      ∀ unknown first second,
        left.get? unknown = some first → right.get? unknown = some second →
          first = second := by
  simp only [isConsistent]
  split
  · exact all_agreesWith_iff left right
  · rw [all_agreesWith_iff right left]
    constructor
    · intro consistent unknown first second inLeft inRight
      exact (consistent unknown second first inRight inLeft).symm
    · intro consistent unknown first second inRight inLeft
      exact (consistent unknown second first inLeft inRight).symm

theorem get?_foldl_insert (bindings : List (Variable × Value)) (env : Environment)
    (tested : Variable) :
    (bindings.foldl (fun joined binding => joined.insert binding.1 binding.2) env).get? tested =
      (env.get? tested).or (valueIn tested bindings) := by
  induction bindings generalizing env with
  | nil => simp [valueIn]
  | cons head tail inductionHypothesis =>
      rw [List.foldl_cons, inductionHypothesis, get?_insert]
      simp only [valueIn]
      cases env.get? tested with
      | some known => rfl
      | none => split <;> rfl

/-- A joined environment has the bindings of the first, and those of the second for the rest. -/
theorem get?_of_merge {left right joined : Environment}
    (success : left.merge right = some joined) (tested : Variable) :
    joined.get? tested = (left.get? tested).or (right.get? tested) := by
  simp only [merge] at success
  split at success
  · cases success
    exact get?_foldl_insert right.bindings left tested
  · cases success

/-! ## Writing -/

/-- The bindings between braces, in increasing order of variables. -/
def text (names : Naming) (env : Environment) : String :=
  "\x7b" ++
    Text.commaSeparated
      (env.bindings.map fun binding => names binding.1 ++ ": " ++ binding.2.text) ++
  "\x7d"

end Environment

end GroundLogic
