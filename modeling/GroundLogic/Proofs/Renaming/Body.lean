import GroundLogic.Proofs.Renaming.Syntax

/-!
# Renaming and fresh variables

Two builds of one rule differ only by a renaming: a renaming that moves the variables of one frame
to those of the other turns the one body into the other (`body_rename`).  Such a renaming can be
had without changing what happens to the variables that exist in both places already
(`exists_extension`).
-/

namespace GroundLogic

variable {mapping other : Renaming} {admitted : Variable → Prop}

/-! ## Extending a renaming -/

/-- A variable that exists where there are `first` variables and whose image exists where there are
`second`. -/
def Renaming.Shared (mapping : Renaming) (first second : Nat) (unknown : Variable) : Prop :=
  unknown.id < first ∧ (mapping unknown).id < second

/-- The second renaming, used once more variables exist on both sides, agrees with the first one on
all variables that both sides knew before. -/
structure Renaming.Growth (mapping : Renaming) (first second : Nat) (extended : Renaming)
    (laterFirst laterSecond : Nat) : Prop where
  firstOrder : first ≤ laterFirst
  secondOrder : second ≤ laterSecond
  agree : ∀ unknown, mapping.Shared first second unknown → mapping unknown = extended unknown

namespace Renaming.Growth

variable {extended latest : Renaming} {first second laterFirst laterSecond : Nat}

theorem refl (mapping : Renaming) (first second : Nat) :
    mapping.Growth first second mapping first second :=
  ⟨Nat.le_refl _, Nat.le_refl _, fun _ _ => rfl⟩

theorem shared (growth : mapping.Growth first second extended laterFirst laterSecond)
    (unknown : Variable) (before : mapping.Shared first second unknown) :
    extended.Shared laterFirst laterSecond unknown := by
  refine ⟨Nat.lt_of_lt_of_le before.1 growth.firstOrder, ?_⟩
  rw [← growth.agree unknown before]
  exact Nat.lt_of_lt_of_le before.2 growth.secondOrder

theorem trans {lastFirst lastSecond : Nat}
    (early : mapping.Growth first second extended laterFirst laterSecond)
    (late : extended.Growth laterFirst laterSecond latest lastFirst lastSecond) :
    mapping.Growth first second latest lastFirst lastSecond :=
  ⟨Nat.le_trans early.firstOrder late.firstOrder,
    Nat.le_trans early.secondOrder late.secondOrder,
    fun unknown before =>
      (early.agree unknown before).trans (late.agree unknown (early.shared unknown before))⟩

theorem map_eq (growth : mapping.Growth first second extended laterFirst laterSecond)
    {unknowns : List Variable}
    (shared : ∀ unknown ∈ unknowns, mapping.Shared first second unknown) :
    unknowns.map mapping = unknowns.map extended :=
  List.map_congr_left fun unknown member => growth.agree unknown (shared unknown member)

end Renaming.Growth

/-- The new variables on one side can be sent to those on the other. -/
theorem Renaming.exists_extension (mapping : Renaming) (first second size : Nat) :
    ∃ extended : Renaming,
      (∀ unknown, mapping.Shared first second unknown → mapping unknown = extended unknown) ∧
      ∀ position < size, extended ⟨first + position⟩ = ⟨second + position⟩ := by
  induction size with
  | zero => exact ⟨mapping, fun _ _ => rfl, fun _ bound => absurd bound (by omega)⟩
  | succ size inductionHypothesis =>
      obtain ⟨middle, agree, moved⟩ := inductionHypothesis
      -- The image of the last new variable changes places with the variable it should go to.
      let exchange := Equiv.swap (middle ⟨first + size⟩) ⟨second + size⟩
      have elsewhere : ∀ unknown : Variable, unknown ≠ ⟨first + size⟩ →
          middle unknown ≠ ⟨second + size⟩ → exchange (middle unknown) = middle unknown :=
        fun unknown notLast notTarget =>
          Equiv.swap_apply_of_ne_of_ne (fun same => notLast (middle.injective same)) notTarget
      refine ⟨middle.trans exchange, ?_, ?_⟩
      · intro unknown shared
        rw [Equiv.trans_apply, elsewhere, agree unknown shared]
        · rintro rfl
          exact absurd shared.1 (by simp)
        · rw [← agree unknown shared]
          intro same
          have bound := shared.2
          rw [same] at bound
          exact absurd bound (by simp)
      · intro position bound
        rw [Equiv.trans_apply]
        rcases Nat.lt_succ_iff_lt_or_eq.1 bound with before | rfl
        · rw [elsewhere, moved position before]
          · simp only [ne_eq, Variable.mk.injEq]
            omega
          · rw [moved position before]
            simp only [ne_eq, Variable.mk.injEq]
            omega
        · exact Equiv.swap_apply_left _ _

/-! ## Bodies -/

namespace Rule

/-- The renaming sends the frame of a build at one base to that of a build at another. -/
def MovesFrame (mapping : Renaming) (size first second : Nat) : Prop :=
  ∀ position < size, mapping ⟨first + position⟩ = ⟨second + position⟩

theorem parameters_rename {rule : Rule} {first second : Nat}
    (moves : MovesFrame mapping rule.template.frameSize first second) :
    (rule.parameters first).map mapping = (rule.rename mapping).parameters second := by
  simp only [parameters, List.map_map, arity, template_rename]
  apply List.map_congr_left
  intro position member
  have bound : position < rule.template.frameSize := by
    rw [List.mem_range] at member
    exact Nat.lt_of_lt_of_le member (Nat.le_add_right ..)
  exact moves position bound

theorem scope_rename {rule : Rule} {first second : Nat}
    (moves : MovesFrame mapping rule.template.frameSize first second) :
    (rule.scope first).map mapping = (rule.rename mapping).scope second := by
  simp only [scope, frame, List.map_append, List.map_map, captured_rename, template_rename]
  congr 1
  apply List.map_congr_left
  intro position member
  exact moves position (List.mem_range.1 member)

theorem close_rename (mapping : Renaming) (scope : List Variable) (templates : List Template)
    (known : List Rule) :
    (Template.close scope templates known).map (rename mapping) =
      Template.close (scope.map mapping) templates (known.map (rename mapping)) := by
  induction templates generalizing known with
  | nil => rfl
  | cons template rest inductionHypothesis =>
      simp only [Template.close, List.map_cons, inductionHypothesis, rename]

theorem innerRules_rename {rule : Rule} {first second : Nat}
    (moves : MovesFrame mapping rule.template.frameSize first second) :
    (rule.innerRules first).map (rename mapping) =
      (rule.rename mapping).innerRules second := by
  simp only [innerRules, close_rename, scope_rename moves, List.map_cons, template_rename,
    rules_rename]

theorem fill_rename (mapping : Renaming) (scope : List Variable) (place : Place) :
    (place.fill scope).rename mapping = place.fill (scope.map mapping) := by
  cases place with
  | value constant => rfl
  | wildcard => rfl
  | slot index =>
      simp only [Place.fill, List.getElem?_map]
      cases scope[index]? <;> rfl

theorem resolve_rename (mapping : Renaming) (rule : Rule) (inner : List Rule)
    (callee : Callee) :
    (callee.resolve rule inner).rename mapping =
      callee.resolve (rule.rename mapping) (inner.map (rename mapping)) := by
  cases callee with
  | inner index =>
      simp only [Callee.resolve, List.getElem?_map]
      cases inner[index]? <;> rfl
  | self => rfl
  | outer index =>
      simp only [Callee.resolve, rules_rename, List.getElem?_map]
      cases rule.rules[index]? <;> rfl

/-- Builds from different variables give the same body up to renaming. -/
theorem body_rename {rule : Rule} {first second : Nat}
    (moves : MovesFrame mapping rule.template.frameSize first second) :
    Goal.rename mapping (rule.body first) = (rule.rename mapping).body second := by
  have places : Term.rename mapping ∘ Place.fill (rule.scope first) =
      Place.fill ((rule.scope first).map mapping) :=
    funext (fill_rename mapping (rule.scope first))
  have callees : rename mapping ∘ Callee.resolve rule (rule.innerRules first) =
      Callee.resolve (rule.rename mapping) ((rule.innerRules first).map (rename mapping)) :=
    funext (resolve_rename mapping rule (rule.innerRules first))
  rw [body, Goal.rename, Formula.map_map, places, callees, scope_rename moves,
    innerRules_rename moves, body, template_rename]

/-! ## What a body mentions -/

theorem over_close {scope : List Variable} {templates : List Template} {known : List Rule}
    (scopeOver : ∀ unknown ∈ scope, admitted unknown)
    (knownOver : ∀ rule ∈ known, rule.Over admitted) :
    ∀ rule ∈ Template.close scope templates known, rule.Over admitted := by
  induction templates generalizing known with
  | nil => exact fun rule member => absurd member List.not_mem_nil
  | cons template rest inductionHypothesis =>
      have first : (⟨template, scope, known⟩ : Rule).Over admitted := .intro scopeOver knownOver
      intro rule member
      rcases List.mem_cons.1 member with rfl | later
      · exact first
      · refine inductionHypothesis (fun other otherMember => ?_) rule later
        rcases List.mem_cons.1 otherMember with rfl | old
        · exact first
        · exact knownOver other old

theorem over_scope {rule : Rule} {base : Nat} (isOver : rule.Over admitted)
    (frame : ∀ position < rule.template.frameSize, admitted ⟨base + position⟩) :
    ∀ unknown ∈ rule.scope base, admitted unknown := by
  intro unknown member
  rcases List.mem_append.1 member with own | captured
  · obtain ⟨position, inRange, rfl⟩ := List.mem_map.1 own
    exact frame position (List.mem_range.1 inRange)
  · exact isOver.of_captured unknown captured

theorem over_fill {scope : List Variable} (scopeOver : ∀ unknown ∈ scope, admitted unknown)
    (places : List Place) : Pattern.Over admitted (places.map (Place.fill scope)) := by
  intro term member unknown equality
  obtain ⟨place, _, rfl⟩ := List.mem_map.1 member
  cases place with
  | value constant => cases equality
  | wildcard => cases equality
  | slot index =>
      simp only [Place.fill] at equality
      cases found : scope[index]? with
      | none =>
          rw [found] at equality
          cases equality
      | some known =>
          rw [found] at equality
          cases equality
          exact scopeOver _ (List.mem_of_getElem? found)

theorem over_resolve {rule : Rule} {inner : List Rule} (isOver : rule.Over admitted)
    (innerOver : ∀ known ∈ inner, known.Over admitted) (callee : Callee) :
    (callee.resolve rule inner).Over admitted := by
  cases callee with
  | inner index =>
      simp only [Callee.resolve]
      cases found : inner[index]? with
      | none => exact isOver
      | some known => exact innerOver known (List.mem_of_getElem? found)
  | self => exact isOver
  | outer index =>
      simp only [Callee.resolve]
      cases found : rule.rules[index]? with
      | none => exact isOver
      | some known => exact isOver.of_rules known (List.mem_of_getElem? found)

/-- A body mentions only the variables of its frame and captured ones. -/
theorem over_body {rule : Rule} {base : Nat} (isOver : rule.Over admitted)
    (frame : ∀ position < rule.template.frameSize, admitted ⟨base + position⟩) :
    Goal.Over admitted (rule.body base) := by
  have scopeOver := over_scope isOver frame
  have innerOver : ∀ known ∈ rule.innerRules base, known.Over admitted := by
    apply over_close scopeOver
    intro known member
    rcases List.mem_cons.1 member with same | outer
    · rw [same]
      exact isOver
    · exact isOver.of_rules known outer
  rw [body]
  generalize rule.template.body = formula
  induction formula with
  | fact relation places => exact over_fill scopeOver places
  | conj left right leftHypothesis rightHypothesis => exact ⟨leftHypothesis, rightHypothesis⟩
  | disj left right leftHypothesis rightHypothesis => exact ⟨leftHypothesis, rightHypothesis⟩
  | call callee places => exact ⟨over_resolve isOver innerOver callee, over_fill scopeOver places⟩

end Rule

/-! ## Passing arguments and answers -/

theorem Pattern.zip_rename (mapping : Renaming) (pattern : Pattern) (unknowns : List Variable) :
    (pattern.rename mapping).zip (unknowns.map mapping) =
      (pattern.zip unknowns).map fun position =>
        (position.1.rename mapping, mapping position.2) :=
  List.zip_map ..

theorem Term.value?_rename (mapping : Renaming) (term : Term) :
    (term.rename mapping).value? = term.value? := by
  cases term <;> rfl

theorem Term.unknown?_rename (mapping : Renaming) (term : Term) :
    (term.rename mapping).unknown? = term.unknown?.map mapping := by
  cases term <;> rfl

theorem Rule.concreteBindings_rename (mapping : Renaming) (arguments : Pattern)
    (parameters : List Variable) :
    concreteBindings (arguments.rename mapping) (parameters.map mapping) =
      (concreteBindings arguments parameters).map fun binding =>
        (mapping binding.1, binding.2) := by
  simp only [concreteBindings, Pattern.zip_rename, List.filterMap_map, List.map_filterMap]
  congr 1
  funext position
  simp only [Function.comp_apply, Term.value?_rename, Option.map_map]
  rfl

theorem Rule.entry_rename {rule : Rule} {first second : Nat}
    (moves : MovesFrame mapping rule.template.frameSize first second) (arguments : Pattern) :
    (rule.entry arguments first).rename mapping =
      (rule.rename mapping).entry (arguments.rename mapping) second := by
  have entered := bindConcrete_parameters (rule.rename mapping) (arguments.rename mapping) second
  rw [bindConcrete_eq_bindAll, ← parameters_rename moves, concreteBindings_rename,
    ← Environment.rename_empty mapping, Environment.bindAll_rename,
    ← bindConcrete_eq_bindAll, bindConcrete_parameters] at entered
  exact Option.some.inj entered

theorem Rule.over_entry {rule : Rule} {base : Nat}
    (frame : ∀ position < rule.template.frameSize, admitted ⟨base + position⟩)
    (arguments : Pattern) : (rule.entry arguments base).Over admitted := by
  intro parameter value found
  obtain ⟨position, bound, _, rfl⟩ := mem_zip_parameters.1 (get?_entry.1 found)
  exact frame position (Nat.lt_of_lt_of_le bound (Nat.le_add_right ..))

theorem Pattern.returned_rename (mapping : Renaming) (answer : Environment)
    (arguments : Pattern) (parameters : List Variable) :
    returned (answer.rename mapping) (arguments.rename mapping) (parameters.map mapping) =
      (returned answer arguments parameters).map fun binding =>
        (mapping binding.1, binding.2) := by
  simp only [returned, Pattern.zip_rename, List.filterMap_map, List.map_filterMap]
  congr 1
  funext position
  simp only [Function.comp_apply, Term.unknown?_rename, Environment.get?_rename]
  cases position.1.unknown? with
  | none => rfl
  | some unknown => cases answer.get? position.2 <;> rfl

theorem Pattern.bindBack_rename (mapping : Renaming) (answer : Environment)
    (arguments : Pattern) (parameters : List Variable) (env : Environment) :
    bindBack (answer.rename mapping) (arguments.rename mapping) (parameters.map mapping)
        (env.rename mapping) =
      (bindBack answer arguments parameters env).map (Environment.rename mapping) := by
  rw [bindBack_eq_bindAll, bindBack_eq_bindAll, returned_rename, Environment.bindAll_rename]

/-! ## Narrowing and unifying -/

theorem Term.narrow_rename (mapping : Renaming) (env : Environment) (term : Term) :
    (term.narrow env).rename mapping = (term.rename mapping).narrow (env.rename mapping) := by
  cases term with
  | value constant => rfl
  | wildcard => rfl
  | var unknown =>
      simp only [narrow, rename, Environment.get?_rename]
      cases env.get? unknown <;> rfl

theorem Pattern.narrow_rename (mapping : Renaming) (env : Environment) (pattern : Pattern) :
    (pattern.narrow env).rename mapping =
      (pattern.rename mapping).narrow (env.rename mapping) := by
  simp only [narrow, rename, List.map_map]
  exact List.map_congr_left fun term _ => Term.narrow_rename mapping env term

theorem Pattern.over_narrow {env : Environment} {pattern : Pattern}
    (isOver : Pattern.Over admitted pattern) : Pattern.Over admitted (pattern.narrow env) := by
  intro term member unknown equality
  obtain ⟨written, writtenMember, rfl⟩ := List.mem_map.1 member
  exact isOver written writtenMember unknown (Term.narrow_eq_var_iff.1 equality).1

theorem Pattern.admits_rename (mapping : Renaming) (pattern : Pattern) (tuple : Tuple) :
    (pattern.rename mapping).admits tuple = pattern.admits tuple := by
  induction pattern generalizing tuple with
  | nil => rfl
  | cons term terms inductionHypothesis =>
      cases tuple with
      | nil => rfl
      | cons stored values =>
          simp only [rename_cons, admits, inductionHypothesis]
          cases term <;> rfl

theorem Pattern.unify_rename (mapping : Renaming) (pattern : Pattern) (tuple : Tuple)
    (env : Environment) :
    (pattern.rename mapping).unify tuple (env.rename mapping) =
      (pattern.unify tuple env).map (Environment.rename mapping) := by
  induction pattern generalizing tuple env with
  | nil => rfl
  | cons term terms inductionHypothesis =>
      cases tuple with
      | nil => rfl
      | cons stored values =>
          have head : (term.rename mapping).unify (env.rename mapping) stored =
              (term.unify env stored).map (Environment.rename mapping) := by
            cases term with
            | value constant =>
                simp only [Term.rename, Term.unify]
                split <;> rfl
            | var unknown => exact Environment.bind_rename mapping env unknown stored
            | wildcard => rfl
          simp only [rename_cons, unify, head]
          cases term.unify env stored with
          | none => rfl
          | some extended => exact inductionHypothesis values extended

theorem Pattern.nextMatch_rename (mapping : Renaming) (pattern narrowed : Pattern)
    (env : Environment) (tuples : List Tuple) :
    nextMatch (pattern.rename mapping) (narrowed.rename mapping) (env.rename mapping) tuples =
      (nextMatch pattern narrowed env tuples).map fun found =>
        (found.1.rename mapping, found.2) := by
  induction tuples with
  | nil => rfl
  | cons tuple rest inductionHypothesis =>
      simp only [nextMatch, admits_rename, unify_rename]
      by_cases admitted : narrowed.admits tuple = true
      · simp only [admitted, if_true]
        cases pattern.unify tuple env with
        | none => exact inductionHypothesis
        | some extended => rfl
      · simp only [admitted]
        exact inductionHypothesis

end GroundLogic
