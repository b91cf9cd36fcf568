import GroundLogic.Proofs.Goal.Reach
import GroundLogic.Proofs.Solutions.Substitution
import GroundLogic.Proofs.State.Chronicle

/-!
# Unfolding calls

A call to a rule means its body with the arguments in the place of the parameters.  The call searches
the body by itself and binds what it finds back into the environment of the caller; the unfolded
body is searched in that environment from the beginning.  The solutions are the same, once the
variables of the body are forgotten (`take_unfold`).
-/

namespace GroundLogic

/-! ## Forgetting variables -/

/-- The environment without the bindings of some variables. -/
def Environment.forget (hidden : List Variable) (env : Environment) : Environment :=
  ⟨env.bindings.filter fun binding => binding.1 ∉ hidden, env.ordered.filter _⟩

theorem Environment.get?_forget {hidden : List Variable} {env : Environment} {unknown : Variable}
    {value : Value} :
    (env.forget hidden).get? unknown = some value ↔
      unknown ∉ hidden ∧ env.get? unknown = some value := by
  rw [get?_eq_some_iff, get?_eq_some_iff, forget, List.mem_filter, decide_eq_true_eq, and_comm]

/-! ## The unfolded body -/

/-- The variables are renamed before they are replaced. -/
def Substitution.after (substitution : Substitution) (mapping : Renaming) : Substitution where
  image := fun unknown => substitution.image (mapping unknown)
  named := fun unknown => substitution.named (mapping unknown)

namespace Rule

/-- The argument stands for its parameter.  For a wildcard the parameter itself stands in, since
nothing else mentions it. -/
def passing (arguments : Pattern) (base : Nat) : Substitution where
  image := fun unknown =>
    match argumentAt? arguments base unknown with
    | some (.value constant) => .value constant
    | some (.var known) => .var known
    | _ => .var unknown
  named := by
    intro unknown
    split <;> nofun

/-- The body of a rule, built at `base`, with the arguments in the place of the parameters. -/
def unfold (rule : Rule) (arguments : Pattern) (base : Nat) : Goal :=
  Formula.map (Term.substitute (passing arguments base)) id (rule.body base)

/-- The body mentions its parameters and its locals, and no captured variable. -/
def SelfContained (rule : Rule) : Prop :=
  ∀ base, Pattern.Over (fun unknown => unknown ∈ rule.frame base)
    (Formula.arguments (rule.body base))

variable {rule : Rule} {arguments : Pattern} {base first : Nat} {own : Variable}

/-- A template whose places refer to its frame only makes a rule that is self-contained. -/
theorem selfContained_of_slots
    (slots : ∀ index, Place.slot index ∈ Formula.arguments rule.template.body →
      index < rule.template.frameSize) : rule.SelfContained := by
  intro base term member unknown equality
  rw [body, Formula.arguments_map] at member
  obtain ⟨place, written, rfl⟩ := List.mem_map.1 member
  cases place with
  | value constant => cases equality
  | wildcard => cases equality
  | slot index =>
      have inFrame : index < (rule.frame base).length := by
        rw [frame, List.length_map, List.length_range]
        exact slots index written
      simp only [Place.fill, scope, List.getElem?_append_left inFrame,
        List.getElem?_eq_getElem inFrame, Term.var.injEq] at equality
      rw [← equality]
      exact List.getElem_mem inFrame

/-- Wherever the body was built, unfolding puts the argument in the place of its parameter. -/
theorem image_of_argument {mapping : Renaming} {term : Term}
    (moves : MovesFrame mapping rule.template.frameSize first base)
    (paired : (term, own) ∈ arguments.zip (rule.parameters first)) (named : term ≠ .wildcard) :
    ((passing arguments base).after mapping).image own = term := by
  obtain ⟨position, bound, found, rfl⟩ := mem_zip_parameters.1 paired
  have moved := moves position (Nat.lt_of_lt_of_le bound (Nat.le_add_right ..))
  simp only [Substitution.after, passing, moved, argumentAt?, Nat.le_add_right, if_true,
    Nat.add_sub_cancel_left, found]
  cases term with
  | value constant => rfl
  | var known => rfl
  | wildcard => exact absurd rfl named

/-- In the place of a variable of the body there is an argument, or a variable of the unfolded
body. -/
theorem passing_cases {mapping : Renaming} (sameLength : arguments.length = rule.arity)
    (moves : MovesFrame mapping rule.template.frameSize first base)
    (inFrame : own ∈ rule.frame first) :
    (∃ term, (term, own) ∈ arguments.zip (rule.parameters first) ∧
        ((passing arguments base).after mapping).image own = term) ∨
      (((passing arguments base).after mapping).image own = .var (mapping own) ∧
        mapping own ∈ rule.frame base) := by
  obtain ⟨position, inRange, rfl⟩ := List.mem_map.1 inFrame
  have moved := moves position (List.mem_range.1 inRange)
  have moving : mapping ⟨first + position⟩ ∈ rule.frame base := by
    rw [moved]
    exact List.mem_map_of_mem inRange
  by_cases passed : ∃ term, arguments[position]? = some term ∧ term ≠ .wildcard
  · obtain ⟨term, found, named⟩ := passed
    have bound : position < rule.arity := by
      rw [← sameLength]
      exact (List.getElem?_eq_some_iff.1 found).1
    have paired : (term, ⟨first + position⟩) ∈ arguments.zip (rule.parameters first) :=
      mem_zip_parameters.2 ⟨position, bound, found, rfl⟩
    exact .inl ⟨term, paired, image_of_argument moves paired named⟩
  · refine .inr ⟨?_, moving⟩
    simp only [Substitution.after, passing, moved, argumentAt?, Nat.le_add_right, if_true,
      Nat.add_sub_cancel_left]
    split
    · next constant found => exact absurd ⟨_, found, nofun⟩ passed
    · next known found => exact absurd ⟨_, found, nofun⟩ passed
    · rfl

theorem unfold_eq {mapping : Renaming} (sameRule : rule.rename mapping = rule)
    (moves : MovesFrame mapping rule.template.frameSize first base) :
    Goal.substitute ((passing arguments base).after mapping) mapping (rule.body first) =
      rule.unfold arguments base := by
  have terms : Term.substitute ((passing arguments base).after mapping) =
      Term.substitute (passing arguments base) ∘ Term.rename mapping := by
    funext term
    cases term <;> rfl
  have sameBody := body_rename moves
  rw [sameRule] at sameBody
  rw [unfold, ← sameBody, Goal.rename, Formula.map_map, Goal.substitute, terms]
  rfl

/-- The unfolded body mentions variables of the frame and of the arguments. -/
theorem over_unfold {admitted : Variable → Prop} (isOver : rule.Over admitted)
    (frame : ∀ position < rule.template.frameSize, admitted ⟨base + position⟩)
    (argumentsOver : Pattern.Over admitted arguments) :
    Goal.Over admitted (rule.unfold arguments base) := by
  have images : ∀ unknown, admitted unknown →
      Term.Over admitted ((passing arguments base).image unknown) := by
    intro unknown known
    simp only [passing]
    split
    · intro other same
      cases same
    · next other found =>
        rw [argumentAt?] at found
        split at found
        · exact argumentsOver _ (List.mem_of_getElem? found)
        · cases found
    · rintro other ⟨⟩
      exact known
  have bodyOver := over_body isOver frame
  rw [unfold]
  generalize rule.body base = goal at bodyOver
  have onTerms : ∀ pattern : Pattern, Pattern.Over admitted pattern →
      Pattern.Over admitted (pattern.map (Term.substitute (passing arguments base))) := by
    intro pattern patternOver term member
    obtain ⟨written, writtenMember, rfl⟩ := List.mem_map.1 member
    cases written with
    | var unknown => exact images unknown (patternOver _ writtenMember unknown rfl)
    | value | wildcard =>
        intro other same
        cases same
  induction goal with
  | fact relation pattern => exact onTerms pattern bodyOver
  | conj left right leftHypothesis rightHypothesis =>
      exact ⟨leftHypothesis bodyOver.1, rightHypothesis bodyOver.2⟩
  | disj left right leftHypothesis rightHypothesis =>
      exact ⟨leftHypothesis bodyOver.1, rightHypothesis bodyOver.2⟩
  | call called passed => exact ⟨bodyOver.1, onTerms passed bodyOver.2⟩

end Rule

/-! ## Answers of the body -/

section Answers

variable {rule : Rule} {arguments : Pattern} {first base : Nat} {mapping : Renaming}
  {env answer result : Environment}

theorem Rule.fits_entry_passing
    (moves : MovesFrame mapping rule.template.frameSize first base) :
    ((passing arguments base).after mapping).Fits
      (rule.entry (Pattern.narrow env arguments) first).bindings env := by
  intro parameter constant member
  rcases Pattern.value_mem_zip_narrow.1 (get?_entry.1 (Environment.get?_eq_some_iff.2 member)) with
    written | ⟨unknown, written, known⟩
  · rw [image_of_argument moves written nofun, Term.narrow]
  · rw [image_of_argument moves written nofun, Term.narrow, known]

namespace Pattern

variable (sameLength : arguments.length = rule.arity)
  (moves : Rule.MovesFrame mapping rule.template.frameSize first base)
  (argumentsApart : Pattern.Over (fun unknown => unknown ∉ rule.frame base) arguments)
  (envApart : env.Over fun unknown => unknown ∉ rule.frame base)
  (answerOver : answer.Over fun unknown => unknown ∈ rule.frame first)

include sameLength moves argumentsApart envApart answerOver

/-- What is left of a carried answer when the unfolded body is forgotten is the answer bound back. -/
theorem bindBack_of_carries
    (carries : ((Rule.passing arguments base).after mapping).Carries env answer.bindings result) :
    bindBack answer (arguments.narrow env) (rule.parameters first) env =
      some (result.forget (rule.frame base)) := by
  rw [bindBack_eq_bindAll, Environment.bindAll_eq_some_iff]
  intro unknown value
  rw [Environment.get?_forget]
  constructor
  · rintro ⟨apart, found⟩
    rcases carries.only unknown value found with before | ⟨source, member, image⟩
    · exact .inl before
    · have answered := Environment.get?_eq_some_iff.2 member
      rcases Rule.passing_cases sameLength moves (answerOver source value answered) with
        ⟨term, paired, passed⟩ | ⟨passed, inFrame⟩
      · obtain rfl : Term.var unknown = term := image.symm.trans passed
        cases known : env.get? unknown with
        | some other =>
            rw [carries.extension unknown other known] at found
            exact .inl found
        | none =>
            exact .inr (mem_returned.2 ⟨source, var_mem_zip_narrow.2 ⟨paired, known⟩, answered⟩)
      · obtain rfl : unknown = mapping source := Term.var.inj (image.symm.trans passed)
        exact absurd inFrame apart
  · rintro (before | back)
    · exact ⟨envApart unknown value before, carries.extension unknown value before⟩
    · obtain ⟨parameter, paired, answered⟩ := mem_returned.1 back
      have written := (var_mem_zip_narrow.1 paired).1
      refine ⟨argumentsApart _ (List.of_mem_zip written).1 unknown rfl, ?_⟩
      exact carries.fits.get?_eq (Environment.get?_eq_some_iff.1 answered)
        (Rule.image_of_argument moves written nofun)

/-- An answer that can be bound back can be carried over. -/
theorem exists_carry_of_bindBack
    (entered : answer.Extends (rule.entry (arguments.narrow env) first))
    (success : bindBack answer (arguments.narrow env) (rule.parameters first) env =
      some result) :
    ∃ joined, ((Rule.passing arguments base).after mapping).carry env answer.bindings =
      some joined := by
  rw [bindBack_eq_bindAll] at success
  -- Variables of the unfolded body have the values of the answer, all others those of the result.
  let values : Assignment := fun unknown =>
    if unknown ∈ rule.frame base then answer.assign (mapping.symm unknown)
    else result.assign unknown
  have within : env.Within values := by
    intro unknown value known
    simp only [values, if_neg (envApart unknown value known)]
    exact Environment.assign_eq (Environment.extends_of_bindAll success unknown value known)
  have denotes : ∀ unknown value, (unknown, value) ∈ answer.bindings →
      (((Rule.passing arguments base).after mapping).image unknown).Denotes values value := by
    intro unknown value member
    have answered := Environment.get?_eq_some_iff.2 member
    rcases Rule.passing_cases sameLength moves (answerOver unknown value answered) with
      ⟨term, paired, passed⟩ | ⟨passed, inFrame⟩
    · cases term with
      | value constant =>
          have same := Rule.value_eq_of_answer entered
            (value_mem_zip_narrow.2 (.inl paired)) answered
          rw [passed, same]
          exact .value value
      | var known =>
          have apart := argumentsApart _ (List.of_mem_zip paired).1 known rfl
          rw [passed, Term.denotes_var_iff]
          simp only [values, if_neg apart]
          apply Environment.assign_eq
          cases bound : env.get? known with
          | none =>
              exact Environment.get?_of_bindAll success
                (mem_returned.2 ⟨unknown, var_mem_zip_narrow.2 ⟨paired, bound⟩, answered⟩)
          | some constant =>
              rw [← Rule.value_eq_of_answer entered
                (value_mem_zip_narrow.2 (.inr ⟨known, paired, bound⟩)) answered]
              exact Environment.extends_of_bindAll success known constant bound
      | wildcard => exact absurd passed (Substitution.named _ unknown)
    · rw [passed, Term.denotes_var_iff]
      simp only [values, if_pos inFrame, Equiv.symm_apply_apply]
      exact Environment.assign_eq answered
  obtain ⟨joined, carried, _⟩ := Substitution.exists_carry_within within denotes
  exact ⟨joined, carried⟩

/-- To carry an answer over into the unfolded body and to forget the body is to bind it back. -/
theorem forget_carry
    (entered : answer.Extends (rule.entry (arguments.narrow env) first)) :
    (((Rule.passing arguments base).after mapping).carry env answer.bindings).map
        (Environment.forget (rule.frame base)) =
      bindBack answer (arguments.narrow env) (rule.parameters first) env := by
  cases carried : ((Rule.passing arguments base).after mapping).carry env answer.bindings with
  | some joined =>
      exact (bindBack_of_carries sameLength moves argumentsApart envApart answerOver
        (Substitution.carry_eq_some_iff.1 carried)).symm
  | none =>
      cases success : bindBack answer (arguments.narrow env) (rule.parameters first) env with
      | none => rfl
      | some result =>
          obtain ⟨joined, possible⟩ := exists_carry_of_bindBack sameLength moves argumentsApart
            envApart answerOver entered success
          rw [carried] at possible
          cases possible

end Pattern

end Answers

/-! ## The unfolded search -/

namespace Goal

variable {rule : Rule} {arguments : Pattern} {env : Environment} {base : Nat}

/-- The search for the unfolded body ends as soon as that for the call does. -/
theorem Lists.exists_ends_unfold {database : Database} {solutions : List Environment}
    (lists : Lists database (.call rule arguments) env solutions)
    (selfContained : rule.SelfContained) (sameLength : arguments.length = rule.arity)
    (ruleBelow : rule.Below base)
    (argumentsApart : Pattern.Over (fun unknown => unknown ∉ rule.frame base) arguments)
    (envApart : env.Over fun unknown => unknown ∉ rule.frame base) :
    ∃ found : List Environment, found.map (Environment.forget (rule.frame base)) = solutions ∧
      Search.Ends database (start (rule.unfold arguments base) env database) found := by
  cases lists with
  | @call _ _ _ first answers fresh body =>
      have moved : (rule.rename (.refl _)).Below base := by
        rw [Rule.rename_refl]
        exact ruleBelow
      obtain ⟨mapping, sameRule, moves⟩ := rule.exists_moves fresh.1 moved
      rw [Rule.rename_refl] at sameRule
      have ends := body.ends_substitute ((Rule.passing arguments base).after mapping) mapping
        (Rule.fits_entry_passing moves)
      rw [Rule.unfold_eq sameRule moves] at ends
      refine ⟨_, ?_, ends⟩
      have entryOver : (rule.entry (Pattern.narrow env arguments) first).Over
          fun unknown => unknown ∈ rule.frame first := by
        refine Rule.over_entry (fun position bound => ?_) _
        exact Rule.mem_frame_iff.2 ⟨Nat.le_add_right .., Nat.add_lt_add_left bound _⟩
      have answerOver := body.over (selfContained first) entryOver
      rw [List.map_filterMap]
      apply List.filterMap_congr
      intro answer member
      exact Pattern.forget_carry sameLength moves argumentsApart envApart
        (answerOver answer member) (body.extends answer member)

/-- A rule call means its unfolded body.  If the search for a call ends, so does the search for the
body with the arguments in the place of the parameters, in any state with the same facts in which
the body has been built; and when the variables of the body are forgotten, the solutions are the
same, in order. -/
theorem take_unfold {state other : State} {fuel wanted : Nat} {solutions : List Environment}
    {rest : Search} {final : State}
    (selfContained : rule.SelfContained) (sameLength : arguments.length = rule.arity)
    (same : other.database.SameFacts state.database)
    (callBelow : Goal.Below state.nextId (.call rule arguments))
    (envBelow : env.Below state.nextId)
    (ruleBelow : rule.Below base) (built : base + rule.template.frameSize ≤ other.nextId)
    (argumentsKnown : Pattern.Over
      (fun unknown => unknown.id < other.nextId ∧ unknown ∉ rule.frame base) arguments)
    (envKnown : env.Over fun unknown => unknown.id < other.nextId ∧ unknown ∉ rule.frame base)
    (taken : (start (.call rule arguments) env state.database).take fuel wanted state =
      (⟨solutions, .ended⟩, rest, final)) :
    ∃ found : List Environment, found.map (Environment.forget (rule.frame base)) = solutions ∧
      ∃ enough, ∀ allowed, enough ≤ allowed → ∀ number, solutions.length < number →
        ((start (rule.unfold arguments base) env other.database).take allowed number other).1 =
          ⟨found, .ended⟩ := by
  have lists : Lists state.database (.call rule arguments) env solutions :=
    (underway_of_take callBelow envBelow taken).2 rfl
  obtain ⟨found, forgotten, ends⟩ := lists.exists_ends_unfold selfContained sameLength ruleBelow
    (argumentsKnown.mono fun _ known => known.2) (envKnown.mono fun _ known => known.2)
  have unfoldKnown : Goal.Below other.nextId (rule.unfold arguments base) := by
    refine Rule.over_unfold (ruleBelow.mono fun _ small => ?_) (fun position bound => ?_)
      (argumentsKnown.mono fun _ known => known.1)
    · exact Nat.lt_of_lt_of_le small (Nat.le_trans (Nat.le_add_right ..) built)
    · exact Nat.lt_of_lt_of_le (Nat.add_lt_add_left bound _) built
  refine ⟨found, forgotten, ?_⟩
  rw [← forgotten, List.length_map, start_congr same]
  exact ends.exists_take
    ⟨same, over_start unfoldKnown (envKnown.mono fun _ known => known.1) _⟩

/-- The unfolded route binds the place on the way as well; without it the solutions are those of the
call. -/
theorem take_unfold_onward :
    ∃ found : List Environment,
      found.map (Environment.forget (Routes.route.frame 2)) =
        [Routes.destination (.symbol "b"), Routes.destination (.symbol "c")] ∧
      ∃ enough, ∀ allowed, enough ≤ allowed → ∀ number, 2 < number →
        ((start (Routes.route.unfold [.value (.symbol "a"), .var ⟨1⟩] 2) .empty
            (Routes.route.opened Routes.road).database).take allowed number
              (Routes.route.opened Routes.road)).1 = ⟨found, .ended⟩ := by
  have selfContained : Routes.route.SelfContained := by
    refine Rule.selfContained_of_slots fun index member => ?_
    simp only [Routes.route, Routes.template, Formula.arguments, List.mem_append, List.mem_cons,
      Place.slot.injEq, List.not_mem_nil, or_false] at member
    simp only [Routes.route, Routes.template, Template.frameSize, List.length_cons,
      List.length_nil]
    omega
  have argumentsKnown : Pattern.Over (fun unknown =>
      unknown.id < (Routes.route.opened Routes.road).nextId ∧ unknown ∉ Routes.route.frame 2)
      [.value (.symbol "a"), .var ⟨1⟩] := by
    intro term member unknown equality
    subst equality
    simp only [List.mem_cons, reduceCtorEq, List.not_mem_nil, or_false, Term.var.injEq,
      false_or] at member
    rw [member]
    decide
  exact take_unfold selfContained rfl (Rule.precedes_opened _ _).sameFacts.symm
    Routes.onward_below (Environment.over_empty _) (Routes.route_below 2) (by decide)
    argumentsKnown (Environment.over_empty _)
    (rfl : (start Routes.onward .empty Routes.road.database).take 20 3 Routes.road =
      (⟨[Routes.destination (.symbol "b"), Routes.destination (.symbol "c")], .ended⟩, _, _))

end Goal

end GroundLogic
