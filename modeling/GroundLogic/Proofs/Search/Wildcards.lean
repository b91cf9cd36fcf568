import GroundLogic.Proofs.Search.Isolation

/-!
# Wildcards are variables that nobody else uses

A wildcard may be spelled out as a variable of its own.  The variables that are spelled out are bound
along the way, but nothing ever looks them up before they are bound: each of them is written at one
place only, and the environment there does not bind it yet.  So both searches go through the same
steps with the same effects, and their environments are the same when these variables are forgotten
(`Search.Spelled`, `Goal.outcomes_spelled`).
-/

namespace GroundLogic

/-! ## Spelling wildcards out -/

/-- The second pattern is the first one with variables in the place of its wildcards, from left to
right. -/
inductive Pattern.Spelled : Pattern → List Variable → Pattern → Prop
  | nil : Spelled [] [] []
  | value {terms written : Pattern} {owns : List Variable} (constant : Value)
      (rest : Spelled terms owns written) :
      Spelled (.value constant :: terms) owns (.value constant :: written)
  | var {terms written : Pattern} {owns : List Variable} (unknown : Variable)
      (rest : Spelled terms owns written) :
      Spelled (.var unknown :: terms) owns (.var unknown :: written)
  | wildcard {terms written : Pattern} {owns : List Variable} (own : Variable)
      (rest : Spelled terms owns written) :
      Spelled (.wildcard :: terms) (own :: owns) (.var own :: written)

/-- The second goal is the first one with variables in the place of the wildcards in its patterns and
arguments, from left to right.  Bodies of rules are not entered. -/
inductive Goal.Spelled : Goal → List Variable → Goal → Prop
  | fact {relation : Relation} {pattern written : Pattern} {owns : List Variable}
      (spelled : pattern.Spelled owns written) :
      Spelled (.fact relation pattern) owns (.fact relation written)
  | conj {left right first second : Goal} {early late : List Variable}
      (lefts : Spelled left early first) (rights : Spelled right late second) :
      Spelled (.conj left right) (early ++ late) (.conj first second)
  | disj {left right first second : Goal} {early late : List Variable}
      (lefts : Spelled left early first) (rights : Spelled right late second) :
      Spelled (.disj left right) (early ++ late) (.disj first second)
  | call {rule : Rule} {arguments written : Pattern} {owns : List Variable}
      (spelled : arguments.Spelled owns written) :
      Spelled (.call rule arguments) owns (.call rule written)

/-! ## Environments -/

namespace Environment

variable {hidden : List Variable} {env extended : Environment} {unknown : Variable} {value : Value}

theorem get?_forget_of_notMem (shown : unknown ∉ hidden) :
    (env.forget hidden).get? unknown = env.get? unknown := by
  apply Option.ext
  intro value
  rw [get?_forget, and_iff_right shown]

theorem get?_eq_none_of_over (unbound : env.Over (· ∉ hidden)) (member : unknown ∈ hidden) :
    env.get? unknown = none := by
  cases found : env.get? unknown with
  | none => rfl
  | some value => exact absurd member (unbound unknown value found)

theorem forget_eq_self (unbound : env.Over (· ∉ hidden)) : env.forget hidden = env := by
  apply ext_bindings
  intro unknown value
  rw [get?_forget]
  exact and_iff_right_of_imp (unbound unknown value)

theorem Over.bind {admitted : Variable → Prop} (isOver : env.Over admitted)
    (isAdmitted : admitted unknown) (success : env.bind unknown value = some extended) :
    extended.Over admitted := by
  intro tested known found
  rcases (get?_bind_eq_some_iff success tested known).1 found with before | ⟨same, _⟩
  · exact isOver tested known before
  · rw [← same]
    exact isAdmitted

/-- A variable that is not to be forgotten may be bound before or after. -/
theorem map_forget_bind (shown : unknown ∉ hidden) :
    (env.bind unknown value).map (forget hidden) = (env.forget hidden).bind unknown value := by
  cases outcome : env.bind unknown value with
  | none =>
      obtain ⟨known, found, different⟩ := bind_eq_none_iff.1 outcome
      rw [← get?_forget_of_notMem shown] at found
      exact (bind_eq_none_iff.2 ⟨known, found, different⟩).symm
  | some extended =>
      refine (bind_eq_some_iff.2 fun tested known => ?_).symm
      rw [get?_forget, get?_forget, get?_bind_eq_some_iff outcome, and_or_left]
      apply or_congr_right
      apply and_iff_right_of_imp
      rintro ⟨rfl, _⟩
      exact shown

/-- A variable that is to be forgotten can be bound once, and leaves no trace. -/
theorem exists_bind_hidden (isHidden : unknown ∈ hidden) (unbound : env.get? unknown = none)
    (value : Value) :
    ∃ extended, env.bind unknown value = some extended ∧
      extended.forget hidden = env.forget hidden := by
  refine ⟨env.insert unknown value, by simp only [Environment.bind, unbound], ?_⟩
  apply ext_bindings
  intro tested known
  rw [get?_forget, get?_forget, and_congr_right_iff]
  intro shown
  have different : unknown ≠ tested := by
    rintro rfl
    exact shown isHidden
  rw [get?_insert, if_neg different, Option.or_none]

end Environment

/-! ## Patterns -/

namespace Pattern.Spelled

variable {hidden owns : List Variable} {pattern written : Pattern} {env : Environment}

/-- What is written is what was written before, and the variables that are spelled out. -/
theorem over_written {admitted : Variable → Prop} (spelled : pattern.Spelled owns written)
    (patternOver : Pattern.Over admitted pattern) (ownsOver : ∀ own ∈ owns, admitted own) :
    Pattern.Over admitted written := by
  induction spelled with
  | nil => exact patternOver
  | value constant _ inductionHypothesis =>
      obtain ⟨termOver, termsOver⟩ := List.forall_mem_cons.1 patternOver
      exact List.forall_mem_cons.2 ⟨termOver, inductionHypothesis termsOver ownsOver⟩
  | var unknown _ inductionHypothesis =>
      obtain ⟨termOver, termsOver⟩ := List.forall_mem_cons.1 patternOver
      exact List.forall_mem_cons.2 ⟨termOver, inductionHypothesis termsOver ownsOver⟩
  | wildcard own _ inductionHypothesis =>
      obtain ⟨_, termsOver⟩ := List.forall_mem_cons.1 patternOver
      obtain ⟨ownAdmitted, othersAdmitted⟩ := List.forall_mem_cons.1 ownsOver
      refine List.forall_mem_cons.2 ⟨?_, inductionHypothesis termsOver othersAdmitted⟩
      rintro unknown ⟨⟩
      exact ownAdmitted

/-- No wildcard is left. -/
theorem wildcard_notMem (spelled : pattern.Spelled owns written) : Term.wildcard ∉ written := by
  induction spelled with
  | nil => exact List.not_mem_nil
  | value constant _ inductionHypothesis => simp [inductionHypothesis]
  | var unknown _ inductionHypothesis => simp [inductionHypothesis]
  | wildcard own _ inductionHypothesis => simp [inductionHypothesis]

/-- A scan lets any value stand at the place of a variable as it does at that of a wildcard. -/
theorem admits_eq (spelled : pattern.Spelled owns written) (tuple : Tuple) :
    written.admits tuple = pattern.admits tuple := by
  induction spelled generalizing tuple with
  | nil => rfl
  | value constant _ inductionHypothesis | var unknown _ inductionHypothesis
  | wildcard own _ inductionHypothesis =>
      cases tuple with
      | nil => rfl
      | cons stored values =>
          simp only [Pattern.admits, Term.admits, inductionHypothesis]

/-- The parameter of an open position is left unbound. -/
theorem bindConcrete_eq (spelled : pattern.Spelled owns written) (parameters : List Variable)
    (env : Environment) :
    Rule.bindConcrete written parameters env = Rule.bindConcrete pattern parameters env := by
  induction spelled generalizing parameters env with
  | nil => rfl
  | value constant _ inductionHypothesis =>
      cases parameters with
      | nil => rfl
      | cons parameter others => simp only [Rule.bindConcrete, inductionHypothesis]
  | var unknown _ inductionHypothesis | wildcard own _ inductionHypothesis =>
      cases parameters with
      | nil => rfl
      | cons parameter others => simp only [Rule.bindConcrete, inductionHypothesis]

theorem entry_eq (spelled : pattern.Spelled owns written) (rule : Rule) (base : Nat) :
    rule.entry written base = rule.entry pattern base := by
  rw [Rule.entry, Rule.entry, spelled.bindConcrete_eq]

theorem entered_eq (spelled : pattern.Spelled owns written) (rule : Rule) (state : State) :
    rule.entered written state = rule.entered pattern state := by
  rw [Rule.entered, Rule.entered, spelled.entry_eq]

/-! Whatever was spelled out is hidden from now on, and was not written in the pattern before. -/

section Hidden

variable (patternOver : Pattern.Over (· ∉ hidden) pattern)

include patternOver

/-- A variable that was spelled out is not bound yet, so it stays as the wildcard does. -/
theorem narrow (spelled : pattern.Spelled owns written) (unbound : env.Over (· ∉ owns)) :
    (pattern.narrow (env.forget hidden)).Spelled owns (written.narrow env) := by
  induction spelled with
  | nil => exact .nil
  | value constant _ inductionHypothesis =>
      exact .value constant (inductionHypothesis (List.forall_mem_cons.1 patternOver).2 unbound)
  | @var terms written owns unknown _ inductionHypothesis =>
      obtain ⟨termOver, termsOver⟩ := List.forall_mem_cons.1 patternOver
      have shown : (env.forget hidden).get? unknown = env.get? unknown :=
        Environment.get?_forget_of_notMem (termOver unknown rfl)
      have rest := inductionHypothesis termsOver unbound
      simp only [Pattern.narrow, List.map_cons, Term.narrow, shown] at rest ⊢
      cases env.get? unknown with
      | none => exact .var unknown rest
      | some known => exact .value known rest
  | @wildcard terms written owns own _ inductionHypothesis =>
      have ownUnbound := Environment.get?_eq_none_of_over unbound (List.mem_cons_self ..)
      have rest := inductionHypothesis (List.forall_mem_cons.1 patternOver).2
        (unbound.mono fun _ apart member => apart (List.mem_cons_of_mem own member))
      simp only [Pattern.narrow, List.map_cons, Term.narrow, ownUnbound] at rest ⊢
      exact .wildcard own rest

variable (within : owns ⊆ hidden) (distinct : owns.Nodup) (unbound : env.Over (· ∉ owns))

include within distinct unbound

theorem map_forget_unify (spelled : pattern.Spelled owns written) (tuple : Tuple) :
    (written.unify tuple env).map (Environment.forget hidden) =
      pattern.unify tuple (env.forget hidden) := by
  induction spelled generalizing tuple env with
  | nil => rfl
  | value constant _ inductionHypothesis =>
      cases tuple with
      | nil => rfl
      | cons stored values =>
          simp only [Pattern.unify, Term.unify]
          by_cases same : constant = stored
          · simp only [if_pos same]
            exact inductionHypothesis (List.forall_mem_cons.1 patternOver).2 within distinct
              unbound values
          · simp only [if_neg same, Option.map_none]
  | @var terms written owns unknown _ inductionHypothesis =>
      cases tuple with
      | nil => rfl
      | cons stored values =>
          obtain ⟨termOver, termsOver⟩ := List.forall_mem_cons.1 patternOver
          have shown := termOver unknown rfl
          simp only [Pattern.unify, Term.unify, ← Environment.map_forget_bind shown]
          cases bound : env.bind unknown stored with
          | none => rfl
          | some extended =>
              have stillUnbound : extended.Over (· ∉ owns) :=
                unbound.bind (fun member => shown (within member)) bound
              exact inductionHypothesis termsOver within distinct stillUnbound values
  | @wildcard terms written owns own _ inductionHypothesis =>
      cases tuple with
      | nil => rfl
      | cons stored values =>
          obtain ⟨ownHidden, othersHidden⟩ := List.cons_subset.1 within
          obtain ⟨apart, othersDistinct⟩ := List.nodup_cons.1 distinct
          obtain ⟨extended, bound, forgotten⟩ := Environment.exists_bind_hidden ownHidden
            (Environment.get?_eq_none_of_over unbound (List.mem_cons_self ..)) stored
          have othersUnbound : extended.Over (· ∉ owns) :=
            (unbound.mono fun _ away member => away (List.mem_cons_of_mem own member)).bind apart
              bound
          have rest := inductionHypothesis (List.forall_mem_cons.1 patternOver).2 othersHidden
            othersDistinct othersUnbound values
          simp only [Pattern.unify, Term.unify, bound]
          rw [rest, forgotten]

/-- Both scans stop at the same tuple. -/
theorem map_forget_nextMatch (spelled : pattern.Spelled owns written) {narrowed filled : Pattern}
    (sameTuples : ∀ tuple, filled.admits tuple = narrowed.admits tuple) (tuples : List Tuple) :
    (Pattern.nextMatch written filled env tuples).map
        (Prod.map (Environment.forget hidden) id) =
      Pattern.nextMatch pattern narrowed (env.forget hidden) tuples := by
  induction tuples with
  | nil => rfl
  | cons tuple rest inductionHypothesis =>
      simp only [Pattern.nextMatch, sameTuples,
        ← spelled.map_forget_unify patternOver within distinct unbound tuple]
      by_cases admitted : narrowed.admits tuple = true
      · simp only [if_pos admitted]
        cases written.unify tuple env with
        | none => exact inductionHypothesis
        | some extended => rfl
      · simp only [if_neg admitted]
        exact inductionHypothesis

theorem map_forget_bindBack (spelled : pattern.Spelled owns written) (answer : Environment)
    (parameters : List Variable) :
    (Pattern.bindBack answer written parameters env).map (Environment.forget hidden) =
      Pattern.bindBack answer pattern parameters (env.forget hidden) := by
  induction spelled generalizing parameters env with
  | nil => rfl
  | value constant _ inductionHypothesis =>
      cases parameters with
      | nil => rfl
      | cons parameter others =>
          exact inductionHypothesis (List.forall_mem_cons.1 patternOver).2 within distinct unbound
            others
  | @var terms written owns unknown _ inductionHypothesis =>
      cases parameters with
      | nil => rfl
      | cons parameter others =>
          obtain ⟨termOver, termsOver⟩ := List.forall_mem_cons.1 patternOver
          have shown := termOver unknown rfl
          simp only [Pattern.bindBack]
          cases answer.get? parameter with
          | none => exact inductionHypothesis termsOver within distinct unbound others
          | some found =>
              simp only [← Environment.map_forget_bind shown]
              cases bound : env.bind unknown found with
              | none => rfl
              | some extended =>
                  have stillUnbound : extended.Over (· ∉ owns) :=
                    unbound.bind (fun member => shown (within member)) bound
                  exact inductionHypothesis termsOver within distinct stillUnbound others
  | @wildcard terms written owns own _ inductionHypothesis =>
      cases parameters with
      | nil => rfl
      | cons parameter others =>
          obtain ⟨ownHidden, othersHidden⟩ := List.cons_subset.1 within
          obtain ⟨apart, othersDistinct⟩ := List.nodup_cons.1 distinct
          have termsOver := (List.forall_mem_cons.1 patternOver).2
          have othersUnbound : env.Over (· ∉ owns) :=
            unbound.mono fun _ away member => away (List.mem_cons_of_mem own member)
          simp only [Pattern.bindBack]
          cases answer.get? parameter with
          | none =>
              exact inductionHypothesis termsOver othersHidden othersDistinct othersUnbound others
          | some found =>
              obtain ⟨extended, bound, forgotten⟩ := Environment.exists_bind_hidden ownHidden
                (Environment.get?_eq_none_of_over unbound (List.mem_cons_self ..)) found
              have rest := inductionHypothesis termsOver othersHidden othersDistinct
                (othersUnbound.bind apart bound) others
              simp only [bound]
              rw [rest, forgotten]

end Hidden

end Pattern.Spelled

/-! ## Variables that are set apart -/

/-- The variables that are spelled out in a goal are distinct, also from those that are spelled out
in the goals after it, and were not written in the goal. -/
structure Pattern.Apart (hidden owns later : List Variable) (pattern : Pattern) : Prop where
  distinct : (owns ++ later).Nodup
  within : owns ++ later ⊆ hidden
  unwritten : Pattern.Over (· ∉ hidden) pattern

namespace Pattern.Apart

variable {hidden owns later early late : List Variable} {pattern first second : Pattern}
  {env : Environment}

theorem owns_within (apart : pattern.Apart hidden owns later) : owns ⊆ hidden :=
  List.Subset.trans (List.subset_append_left owns later) apart.within

theorem owns_distinct (apart : pattern.Apart hidden owns later) : owns.Nodup :=
  apart.distinct.of_append_left

/-- What is spelled out now does not concern the goals after it. -/
theorem over_later (apart : pattern.Apart hidden owns later) {written : Pattern}
    (spelled : pattern.Spelled owns written) : Pattern.Over (· ∉ later) written := by
  have patternOver : Pattern.Over (· ∉ later) pattern :=
    apart.unwritten.mono fun unknown shown member =>
      shown (apart.within (List.mem_append_right owns member))
  exact spelled.over_written patternOver fun own member =>
    List.disjoint_of_nodup_append apart.distinct member

/-- A conjunction runs its left goal while the variables of the right one wait. -/
theorem conj_left (apart : Apart hidden (early ++ late) later (first ++ second)) :
    first.Apart hidden early (late ++ later) :=
  ⟨List.append_assoc early late later ▸ apart.distinct,
    List.append_assoc early late later ▸ apart.within,
    (Pattern.over_append.1 apart.unwritten).1⟩

theorem right (apart : Apart hidden (early ++ late) later (first ++ second)) :
    second.Apart hidden late later := by
  have whole := List.append_assoc early late later
  exact ⟨(whole ▸ apart.distinct).of_append_right,
    List.Subset.trans (List.subset_append_right early _) (whole ▸ apart.within),
    (Pattern.over_append.1 apart.unwritten).2⟩

/-- In a disjunction the variables of the right goal do not have to wait. -/
theorem disj_left (apart : Apart hidden (early ++ late) later (first ++ second)) :
    first.Apart hidden early later := by
  have fewer : (early ++ later).Sublist (early ++ late ++ later) :=
    (List.sublist_append_left early late).append_right later
  exact ⟨apart.distinct.sublist fewer, List.Subset.trans fewer.subset apart.within,
    (Pattern.over_append.1 apart.unwritten).1⟩

end Pattern.Apart

/-- Fewer variables are unbound as well. -/
theorem Environment.Over.of_subset {env : Environment} {some all : List Variable}
    (unbound : env.Over (· ∉ all)) (subset : some ⊆ all) : env.Over (· ∉ some) :=
  unbound.mono fun _ away member => away (subset member)

/-! ## Two searches side by side -/

/-- Two searches at the same place, the second with wildcards spelled out.  The hidden variables are
all that are spelled out anywhere; those that wait for the goals after this search are not bound by
it.  A body that is being searched is the same on both sides. -/
inductive Search.Spelled (hidden : List Variable) : List Variable → Search → Search → Prop
  | ended {later : List Variable} : Spelled hidden later .ended .ended
  | scan {later owns : List Variable} {pattern written narrowed filled : Pattern}
      {env : Environment} {remaining : List Tuple} (spelled : pattern.Spelled owns written)
      (sameTuples : ∀ tuple, filled.admits tuple = narrowed.admits tuple)
      (apart : pattern.Apart hidden owns later) (unbound : env.Over (· ∉ owns ++ later)) :
      Spelled hidden later (.scan pattern narrowed (env.forget hidden) remaining)
        (.scan written filled env remaining)
  | join {later owns : List Variable} {current other left first : Search} {right second : Goal}
      (currents : Spelled hidden later current other)
      (lefts : Spelled hidden (owns ++ later) left first) (rights : right.Spelled owns second)
      (apart : Pattern.Apart hidden owns later (Formula.arguments right)) :
      Spelled hidden later (.join current left right) (.join other first second)
  | alternative {later owns : List Variable} {left first : Search} {right second : Goal}
      {env : Environment} (lefts : Spelled hidden later left first)
      (rights : right.Spelled owns second)
      (apart : Pattern.Apart hidden owns later (Formula.arguments right))
      (unbound : env.Over (· ∉ owns ++ later)) :
      Spelled hidden later (.alternative left right (env.forget hidden))
        (.alternative first second env)
  | call {later owns : List Variable} {rule : Rule} {arguments written : Pattern}
      {env : Environment} (spelled : arguments.Spelled owns written)
      (apart : arguments.Apart hidden owns later) (unbound : env.Over (· ∉ owns ++ later)) :
      Spelled hidden later (.call rule arguments (env.forget hidden)) (.call rule written env)
  | returning {later owns : List Variable} {body : Search} {arguments written : Pattern}
      {parameters : List Variable} {env : Environment} (spelled : arguments.Spelled owns written)
      (apart : arguments.Apart hidden owns later) (unbound : env.Over (· ∉ owns ++ later)) :
      Spelled hidden later (.returning body arguments parameters (env.forget hidden))
        (.returning body written parameters env)

/-- Two steps that come out alike, up to the hidden variables, and leave the same state. -/
inductive Step.Spelled (hidden later : List Variable) : Step × State → Step × State → Prop
  | answer {env : Environment} {rest other : Search} {after : State}
      (unbound : env.Over (· ∉ later)) (rests : rest.Spelled hidden later other) :
      Spelled hidden later (.answer (env.forget hidden) rest, after) (.answer env other, after)
  | silent {rest other : Search} {after : State} (rests : rest.Spelled hidden later other) :
      Spelled hidden later (.silent rest, after) (.silent other, after)
  | finished {after : State} : Spelled hidden later (.finished, after) (.finished, after)

namespace Search

variable {hidden owns later : List Variable} {goal written : Goal} {env : Environment}
  {search other : Search}

theorem spelled_start (spelled : goal.Spelled owns written)
    (apart : Pattern.Apart hidden owns later (Formula.arguments goal))
    (unbound : env.Over (· ∉ owns ++ later)) (database : Database) :
    (goal.start (env.forget hidden) database).Spelled hidden later
      (written.start env database) := by
  induction spelled generalizing later with
  | fact spelled =>
      have narrowed := spelled.narrow apart.unwritten
        (unbound.of_subset (List.subset_append_left _ later))
      exact .scan spelled narrowed.admits_eq apart unbound
  | @conj left right first second early late lefts rights leftHypothesis rightHypothesis =>
      refine .join .ended (leftHypothesis apart.conj_left ?_) rights apart.right
      rw [← List.append_assoc]
      exact unbound
  | @disj left right first second early late lefts rights leftHypothesis rightHypothesis =>
      have leftsUnbound : env.Over (· ∉ early ++ later) := unbound.of_subset
        ((List.sublist_append_left early late).append_right later).subset
      have rightsUnbound : env.Over (· ∉ late ++ later) := unbound.of_subset
        ((List.sublist_append_right early late).append_right later).subset
      exact .alternative (leftHypothesis apart.disj_left leftsUnbound) rights apart.right
        rightsUnbound
  | @call rule arguments written owns spelled =>
      have narrowed := spelled.narrow apart.unwritten
        (unbound.of_subset (List.subset_append_left _ later))
      have narrowedApart : (Pattern.narrow (env.forget hidden) arguments).Apart hidden owns later :=
        ⟨apart.distinct, apart.within, Pattern.over_narrow apart.unwritten⟩
      exact .call narrowed narrowedApart unbound

/-- When the right goal is done with on both sides, both go on with the left one. -/
private theorem spelled_left {current late left first : Search} {right second : Goal}
    {state after : State} (rights : right.Spelled owns second)
    (apart : Pattern.Apart hidden owns later (Formula.arguments right))
    (currentStep : current.step state = (.finished, after))
    (lateStep : late.step state = (.finished, after))
    (lefts : Step.Spelled hidden (owns ++ later) (left.step after) (first.step after)) :
    Step.Spelled hidden later ((Search.join current left right).step state)
      ((Search.join late first second).step state) := by
  rcases leftStep : left.step after with ⟨outcome, afterLeft⟩
  rcases firstStep : first.step after with ⟨otherOutcome, afterFirst⟩
  rw [leftStep, firstStep] at lefts
  simp only [step, currentStep, lateStep, leftStep, firstStep]
  cases lefts with
  | answer unbound rests =>
      exact .silent (.join (spelled_start rights apart unbound _) rests rights apart)
  | silent rests => exact .silent (.join .ended rests rights apart)
  | finished => exact .finished

theorem spelled_step (spelled : search.Spelled hidden later other) (state : State) :
    Step.Spelled hidden later (search.step state) (other.step state) := by
  induction spelled generalizing state with
  | ended => exact .finished
  | @scan later owns pattern written narrowed filled env remaining spelled sameTuples apart
      unbound =>
      have ownUnbound := unbound.of_subset (List.subset_append_left owns later)
      have together := spelled.map_forget_nextMatch apart.unwritten apart.owns_within
        apart.owns_distinct ownUnbound sameTuples remaining
      simp only [step, ← together]
      cases found : Pattern.nextMatch written filled env remaining with
      | none => exact .finished
      | some result =>
          refine .answer ?_ (.scan spelled sameTuples apart unbound)
          exact Pattern.over_of_nextMatch (apart.over_later spelled)
            (unbound.of_subset (List.subset_append_right owns later)) found
  | @join later owns current late left first right second currents lefts rights apart
      currentHypothesis leftHypothesis =>
      have steps := currentHypothesis state
      rcases currentStep : current.step state with ⟨outcome, after⟩
      rcases lateStep : late.step state with ⟨otherOutcome, otherAfter⟩
      rw [currentStep, lateStep] at steps
      cases steps with
      | answer unbound rests =>
          simp only [step, currentStep, lateStep]
          exact .answer unbound (.join rests lefts rights apart)
      | silent rests =>
          simp only [step, currentStep, lateStep]
          exact .silent (.join rests lefts rights apart)
      | finished => exact spelled_left rights apart currentStep lateStep (leftHypothesis after)
  | @alternative later owns left first right second env lefts rights apart unbound
      leftHypothesis =>
      have steps := leftHypothesis state
      rcases leftStep : left.step state with ⟨outcome, after⟩
      rcases firstStep : first.step state with ⟨otherOutcome, otherAfter⟩
      rw [leftStep, firstStep] at steps
      simp only [step, leftStep, firstStep]
      cases steps with
      | answer answerUnbound rests =>
          exact .answer answerUnbound (.alternative rests rights apart unbound)
      | silent rests => exact .silent (.alternative rests rights apart unbound)
      | finished => exact .silent (spelled_start rights apart unbound _)
  | call spelled apart unbound =>
      -- The body is entered with the same values, so from here on the bodies are equal.
      rw [step_call, step_call, spelled.entered_eq, spelled.entry_eq]
      exact .silent (.returning spelled apart unbound)
  | @returning later owns body arguments written parameters env spelled apart unbound =>
      have ownUnbound := unbound.of_subset (List.subset_append_left owns later)
      simp only [step]
      rcases body.step state with ⟨answer | _ | _, after⟩
      · have together := spelled.map_forget_bindBack apart.unwritten apart.owns_within
          apart.owns_distinct ownUnbound answer parameters
        simp only [← together]
        cases returned : Pattern.bindBack answer written parameters env with
        | none => exact .silent (.returning spelled apart unbound)
        | some extended =>
            refine .answer ?_ (.returning spelled apart unbound)
            exact Pattern.over_of_bindBack (apart.over_later spelled)
              (unbound.of_subset (List.subset_append_right owns later)) returned
      · exact .silent (.returning spelled apart unbound)
      · exact .finished

/-! ## Pulls -/

/-- A pull on both sides comes out the same up to the hidden variables, and leaves the same state. -/
theorem spelled_pull (fuel : Nat) (spelled : search.Spelled hidden later other) (state : State) :
    (other.pull fuel state).1.map (Environment.forget hidden) = (search.pull fuel state).1 ∧
      (search.pull fuel state).2.1.Spelled hidden later (other.pull fuel state).2.1 ∧
      (other.pull fuel state).2.2 = (search.pull fuel state).2.2 := by
  induction fuel generalizing search other state with
  | zero => exact ⟨rfl, spelled, rfl⟩
  | succ fuel inductionHypothesis =>
      have steps := spelled_step spelled state
      rw [pull, pull]
      rcases searchStep : search.step state with ⟨outcome, after⟩
      rcases otherStep : other.step state with ⟨otherOutcome, otherAfter⟩
      rw [searchStep, otherStep] at steps
      cases steps with
      | answer unbound rests => exact ⟨rfl, rests, rfl⟩
      | silent rests => exact inductionHypothesis rests after
      | finished => exact ⟨rfl, spelled, rfl⟩

theorem spelled_outcomes (fuel count : Nat) (spelled : search.Spelled hidden later other)
    (state : State) :
    (other.outcomes fuel count state).1.map (Pull.map (Environment.forget hidden)) =
        (search.outcomes fuel count state).1 ∧
      (other.outcomes fuel count state).2.2 = (search.outcomes fuel count state).2.2 := by
  induction count generalizing search other state with
  | zero => exact ⟨rfl, rfl⟩
  | succ count inductionHypothesis =>
      obtain ⟨sameOutcome, rests, sameState⟩ := spelled_pull fuel spelled state
      obtain ⟨sameLater, sameFinal⟩ :=
        inductionHypothesis rests (search.pull fuel state).2.2
      rw [outcomes_succ, outcomes_succ, sameState, List.map_cons, sameOutcome, sameLater,
        sameFinal]
      exact ⟨rfl, rfl⟩

end Search

/-! ## Goals -/

namespace Goal

variable {goal written : Goal} {owns : List Variable} {env : Environment}

/-- What is spelled out is a goal without wildcards in its patterns and arguments. -/
theorem Spelled.wildcard_notMem (spelled : goal.Spelled owns written) :
    Term.wildcard ∉ Formula.arguments written := by
  induction spelled with
  | fact spelled => exact spelled.wildcard_notMem
  | conj _ _ leftHypothesis rightHypothesis | disj _ _ leftHypothesis rightHypothesis =>
      exact fun member => (List.mem_append.1 member).elim leftHypothesis rightHypothesis
  | call spelled => exact spelled.wildcard_notMem

/-- A wildcard behaves as a variable that is used nowhere else.  When every wildcard of a goal is
replaced by a variable of its own, which neither the goal nor the environment knows, any number of
pulls come out the same once these variables are forgotten: the same solutions are found, or the end
is reached, and the same variables are created and the same events noted. -/
theorem outcomes_spelled (spelled : goal.Spelled owns written) (distinct : owns.Nodup)
    (unwritten : ∀ own ∈ owns, own ∉ goal.unknowns)
    (unbound : ∀ own ∈ owns, env.get? own = none) (fuel count : Nat) (state : State) :
    Term.wildcard ∉ Formula.arguments written ∧
      ((written.start env state.database).outcomes fuel count state).1.map
          (Pull.map (Environment.forget owns)) =
        ((goal.start env state.database).outcomes fuel count state).1 ∧
      ((written.start env state.database).outcomes fuel count state).2.2 =
        ((goal.start env state.database).outcomes fuel count state).2.2 := by
  have envOver : env.Over (· ∉ owns) := by
    intro unknown value found member
    rw [unbound unknown member] at found
    cases found
  have apart : Pattern.Apart owns owns [] (Formula.arguments goal) := by
    refine ⟨by rwa [List.append_nil], by rw [List.append_nil]; exact List.Subset.refl owns, ?_⟩
    exact Pattern.over_of_unknowns fun unknown written member => unwritten unknown member written
  have together := Search.spelled_start spelled apart (by rwa [List.append_nil]) state.database
  rw [Environment.forget_eq_self envOver] at together
  exact ⟨spelled.wildcard_notMem, Search.spelled_outcomes fuel count together state⟩

end Goal

/-- A stretch to a place from which one can get on, from anywhere to anywhere. -/
def Routes.passing : Goal :=
  .conj (.fact stretch [.wildcard, .var ⟨1⟩]) (.call route [.var ⟨1⟩, .wildcard])

/-- The same with names for where it begins and where it ends. -/
def Routes.passingBetween : Goal :=
  .conj (.fact stretch [.var ⟨2⟩, .var ⟨1⟩]) (.call route [.var ⟨1⟩, .var ⟨3⟩])

/-- The road, and three variables. -/
def Routes.charted : State :=
  (surveyed.declare .generated).2

/-- With names for both ends, one finds where the way begins and where it ends as well. -/
theorem Goal.outcomes_spelled_passing :
    ((Routes.passingBetween.start .empty Routes.charted.database).outcomes 40 2
        Routes.charted).1.map (Pull.map (Environment.forget [⟨2⟩, ⟨3⟩])) =
      [.found (Routes.destination (.symbol "b")), .ended] ∧
    ((Routes.passingBetween.start .empty Routes.charted.database).outcomes 40 2
        Routes.charted).1 =
      [.found ⟨[(⟨1⟩, .symbol "b"), (⟨2⟩, .symbol "a"), (⟨3⟩, .symbol "c")], by decide⟩,
        .ended] := by
  have spelled : Routes.passing.Spelled ([⟨2⟩] ++ [⟨3⟩]) Routes.passingBetween :=
    .conj (.fact (.wildcard ⟨2⟩ (.var ⟨1⟩ .nil))) (.call (.var ⟨1⟩ (.wildcard ⟨3⟩ .nil)))
  obtain ⟨_, shown, _⟩ := Goal.outcomes_spelled spelled (by decide) (by decide)
    (fun _ _ => Environment.get?_empty _) 40 2 Routes.charted
  exact ⟨shown, rfl⟩

end GroundLogic
