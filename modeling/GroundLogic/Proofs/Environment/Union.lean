import GroundLogic.Goal.Meaning

/-!
# Environments as sets of bindings

Binding and merging succeed exactly when the union of the bindings involved gives no variable two
values, and then the result is this union (`bindAll_eq_some_iff`, `merge_eq_some_iff`).
-/

namespace GroundLogic

namespace Environment

variable {env extended left right joined : Environment}

/-- The first environment consists of the bindings of the other two. -/
def IsUnion (joined left right : Environment) : Prop :=
  ∀ unknown value, joined.get? unknown = some value ↔
    left.get? unknown = some value ∨ right.get? unknown = some value

theorem Extends.trans {larger middle smaller : Environment}
    (first : larger.Extends middle) (second : middle.Extends smaller) :
    larger.Extends smaller :=
  fun unknown value found => first unknown value (second unknown value found)

theorem extends_empty (env : Environment) : env.Extends empty := by
  intro unknown value found
  rw [get?_empty] at found
  cases found

theorem Extends.subset {larger smaller : Environment} (extension : larger.Extends smaller) :
    smaller.bindings ⊆ larger.bindings :=
  fun binding member => get?_eq_some_iff.1
    (extension binding.1 binding.2 (get?_eq_some_iff.2 member))

theorem Within.of_extends {larger smaller : Environment} {assignment : Assignment}
    (within : larger.Within assignment) (extension : larger.Extends smaller) :
    smaller.Within assignment :=
  fun unknown value found => within unknown value (extension unknown value found)

theorem within_empty (assignment : Assignment) : empty.Within assignment := by
  intro unknown value found
  rw [get?_empty] at found
  cases found

theorem over_empty (admitted : Variable → Prop) : empty.Over admitted := by
  intro unknown value found
  rw [get?_empty] at found
  cases found

/-- Two environments with the same bindings are equal. -/
theorem ext_bindings
    (same : ∀ unknown value, left.get? unknown = some value ↔ right.get? unknown = some value) :
    left = right := by
  apply ext_get?
  intro unknown
  exact Option.ext fun value => same unknown value

theorem mem_domain {unknown : Variable} :
    unknown ∈ env.domain ↔ ∃ value, env.get? unknown = some value := by
  rw [domain, List.mem_map]
  constructor
  · intro listed
    obtain ⟨binding, member, same⟩ := listed
    rw [← same]
    exact ⟨binding.2, get?_eq_some_iff.2 member⟩
  · intro bound
    obtain ⟨value, found⟩ := bound
    exact ⟨(unknown, value), get?_eq_some_iff.1 found, rfl⟩

/-! ## Binding -/

theorem get?_bind_self {unknown : Variable} {value : Value}
    (success : env.bind unknown value = some extended) :
    extended.get? unknown = some value := by
  rw [get?_of_bind success, if_pos rfl]

theorem extends_of_bind {unknown : Variable} {value : Value}
    (success : env.bind unknown value = some extended) : extended.Extends env := by
  intro tested known found
  rw [get?_of_bind success]
  by_cases here : unknown = tested
  · subst here
    rw [if_pos rfl]
    by_cases same : known = value
    · rw [same]
    · rw [bind_eq_none_iff.2 ⟨known, found, same⟩] at success
      cases success
  · rw [if_neg here]
    exact found

theorem get?_bind_eq_some_iff {unknown : Variable} {value : Value}
    (success : env.bind unknown value = some extended) (tested : Variable) (known : Value) :
    extended.get? tested = some known ↔
      env.get? tested = some known ∨ (unknown = tested ∧ value = known) := by
  constructor
  · intro found
    rw [get?_of_bind success] at found
    split at found
    · next same => exact Or.inr ⟨same, Option.some.inj found⟩
    · exact Or.inl found
  · rintro (found | ⟨rfl, rfl⟩)
    · exact extends_of_bind success tested known found
    · exact get?_bind_self success

/-- Binding succeeds with the environment that has one more binding, when there is one. -/
theorem bind_eq_some_iff {unknown : Variable} {value : Value} :
    env.bind unknown value = some extended ↔
      ∀ tested known, extended.get? tested = some known ↔
        env.get? tested = some known ∨ (unknown = tested ∧ value = known) := by
  constructor
  · exact get?_bind_eq_some_iff
  · intro union
    cases outcome : env.bind unknown value with
    | none =>
        obtain ⟨known, found, different⟩ := bind_eq_none_iff.1 outcome
        have asBefore := (union unknown known).2 (Or.inl found)
        have asBound := (union unknown value).2 (Or.inr ⟨rfl, rfl⟩)
        rw [asBound] at asBefore
        exact absurd (Option.some.inj asBefore).symm different
    | some other =>
        congr 1
        apply ext_bindings
        intro tested known
        exact (get?_bind_eq_some_iff outcome tested known).trans (union tested known).symm

theorem exists_bind_within {unknown : Variable} {value : Value} {assignment : Assignment}
    (within : env.Within assignment) (agrees : assignment unknown = value) :
    ∃ extended, env.bind unknown value = some extended ∧ extended.Within assignment := by
  cases outcome : env.bind unknown value with
  | none =>
      obtain ⟨known, bound, different⟩ := bind_eq_none_iff.1 outcome
      exact absurd ((within unknown known bound).symm.trans agrees) different
  | some extended =>
      refine ⟨extended, rfl, fun tested known found => ?_⟩
      rcases (bind_eq_some_iff.1 outcome tested known).1 found with bound | ⟨rfl, rfl⟩
      · exact within tested known bound
      · exact agrees

/-- The value of every variable that an environment binds; some value for the others. -/
def assign (env : Environment) : Assignment :=
  fun unknown => (env.get? unknown).getD default

theorem assign_eq {unknown : Variable} {value : Value} (found : env.get? unknown = some value) :
    env.assign unknown = value := by
  rw [assign, found, Option.getD_some]

theorem within_assign (extension : extended.Extends env) : env.Within extended.assign :=
  fun unknown value found => assign_eq (extension unknown value found)

/-! ## Merging -/

theorem isConsistent_of_merge (success : left.merge right = some joined) :
    left.isConsistent right = true := by
  simp only [merge] at success
  split at success
  · assumption
  · cases success

theorem exists_merge_of_agree
    (agree : ∀ unknown first second, left.get? unknown = some first →
      right.get? unknown = some second → first = second) :
    ∃ joined, left.merge right = some joined := by
  have consistent : left.isConsistent right = true := (isConsistent_iff left right).2 agree
  simp only [merge, consistent, if_true]
  exact ⟨_, rfl⟩

theorem isUnion_of_merge (success : left.merge right = some joined) :
    joined.IsUnion left right := by
  intro unknown value
  have agree := (isConsistent_iff left right).1 (isConsistent_of_merge success) unknown
  rw [get?_of_merge success]
  cases inLeft : left.get? unknown with
  | none => simp only [Option.none_or, reduceCtorEq, false_or]
  | some known =>
      rw [Option.some_or]
      constructor
      · exact Or.inl
      · rintro (same | inRight)
        · exact same
        · exact congrArg some (agree known value inLeft inRight)

theorem merge_eq_some_iff :
    left.merge right = some joined ↔ joined.IsUnion left right := by
  constructor
  · exact isUnion_of_merge
  · intro union
    have agree : ∀ unknown first second, left.get? unknown = some first →
        right.get? unknown = some second → first = second := by
      intro unknown first second inLeft inRight
      have firstFound := (union unknown first).2 (Or.inl inLeft)
      have secondFound := (union unknown second).2 (Or.inr inRight)
      rw [firstFound] at secondFound
      exact Option.some.inj secondFound
    obtain ⟨other, success⟩ := exists_merge_of_agree agree
    have same : other = joined := by
      apply ext_bindings
      intro unknown value
      exact (isUnion_of_merge success unknown value).trans (union unknown value).symm
    rw [success, same]

theorem merge_comm (left right : Environment) : left.merge right = right.merge left := by
  apply Option.ext
  intro joined
  rw [merge_eq_some_iff, merge_eq_some_iff]
  constructor
  · exact fun union unknown value => (union unknown value).trans Or.comm
  · exact fun union unknown value => (union unknown value).trans Or.comm

theorem merge_of_extends {larger smaller : Environment}
    (extension : larger.Extends smaller) : larger.merge smaller = some larger := by
  refine merge_eq_some_iff.2 fun unknown value => ⟨Or.inl, ?_⟩
  rintro (found | found)
  · exact found
  · exact extension unknown value found

/-! ## Binding many variables -/

/-- Binds variables one after the other. -/
def bindAll (env : Environment) : List (Variable × Value) → Option Environment
  | [] => some env
  | (unknown, value) :: rest =>
      (env.bind unknown value).bind fun extended => extended.bindAll rest

theorem bindAll_append (env : Environment) (early late : List (Variable × Value)) :
    env.bindAll (early ++ late) =
      (env.bindAll early).bind fun extended => extended.bindAll late := by
  induction early generalizing env with
  | nil => rfl
  | cons head tail inductionHypothesis =>
      simp only [List.cons_append, bindAll, inductionHypothesis, Option.bind_assoc]

variable {bindings : List (Variable × Value)}

/-- Binding many variables succeeds with the union of what was bound and what is to be bound, when
there is one. -/
theorem bindAll_eq_some_iff :
    env.bindAll bindings = some extended ↔
      ∀ tested known, extended.get? tested = some known ↔
        env.get? tested = some known ∨ (tested, known) ∈ bindings := by
  induction bindings generalizing env with
  | nil =>
      simp only [bindAll, Option.some.injEq, List.not_mem_nil, or_false]
      constructor
      · rintro rfl tested known
        exact Iff.rfl
      · intro same
        exact ext_bindings fun tested known => (same tested known).symm
  | cons head tail inductionHypothesis =>
      obtain ⟨unknown, value⟩ := head
      simp only [bindAll, Option.bind_eq_some_iff, inductionHypothesis, List.mem_cons,
        Prod.mk.injEq]
      constructor
      · rintro ⟨middle, bound, union⟩ tested known
        rw [union, get?_bind_eq_some_iff bound, or_assoc, eq_comm (a := unknown),
          eq_comm (a := value)]
      · intro union
        have whole : extended.Extends env := fun tested known found =>
          (union tested known).2 (Or.inl found)
        have found := (union unknown value).2 (Or.inr (Or.inl ⟨rfl, rfl⟩))
        obtain ⟨middle, bound, _⟩ := exists_bind_within (within_assign whole) (assign_eq found)
        refine ⟨middle, bound, fun tested known => ?_⟩
        rw [union, get?_bind_eq_some_iff bound, or_assoc, eq_comm (a := unknown),
          eq_comm (a := value)]

theorem extends_of_bindAll (success : env.bindAll bindings = some extended) :
    extended.Extends env :=
  fun tested known found => (bindAll_eq_some_iff.1 success tested known).2 (Or.inl found)

theorem get?_of_bindAll {unknown : Variable} {value : Value}
    (success : env.bindAll bindings = some extended) (member : (unknown, value) ∈ bindings) :
    extended.get? unknown = some value :=
  (bindAll_eq_some_iff.1 success unknown value).2 (Or.inr member)

theorem Over.bindAll {admitted : Variable → Prop} (isOver : env.Over admitted)
    (listed : ∀ binding ∈ bindings, admitted binding.1)
    (success : env.bindAll bindings = some extended) : extended.Over admitted := by
  intro unknown value found
  rcases (bindAll_eq_some_iff.1 success unknown value).1 found with before | member
  · exact isOver unknown value before
  · exact listed (unknown, value) member

theorem exists_bindAll_within {assignment : Assignment}
    (within : env.Within assignment)
    (agree : ∀ binding ∈ bindings, assignment binding.1 = binding.2) :
    ∃ extended, env.bindAll bindings = some extended ∧ extended.Within assignment := by
  induction bindings generalizing env with
  | nil => exact ⟨env, rfl, within⟩
  | cons head tail inductionHypothesis =>
      obtain ⟨middle, bound, middleWithin⟩ :=
        exists_bind_within within (agree head (List.mem_cons_self ..))
      obtain ⟨extended, rest, extendedWithin⟩ :=
        inductionHypothesis middleWithin fun binding member =>
          agree binding (List.mem_cons_of_mem _ member)
      refine ⟨extended, ?_, extendedWithin⟩
      simp only [bindAll, bound, Option.bind_some, rest]

end Environment

end GroundLogic
