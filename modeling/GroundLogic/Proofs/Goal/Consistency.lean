import GroundLogic.Proofs.Goal.Arities

/-!
# What validation decides

A goal says an arity for each of its relations: the fixed one, or else the length of its leftmost
pattern.  Validation succeeds exactly when every fact and every call has the length that is expected
of it, and then fixes these arities, in the order in which the relations occur first; otherwise the
leftmost fact or call that does not fit is the error, and nothing has been fixed
(`validate_decides`).
-/

namespace GroundLogic

/-! ## Facts and calls -/

/-- A fact or a call in a goal. -/
inductive Atom where
  | fact (relation : Relation) (pattern : Pattern)
  | call (rule : Rule) (arguments : Pattern)

namespace Atom

def relation? : Atom → Option Relation
  | .fact relation _ => some relation
  | .call _ _ => none

/-- The arity that the atom says for a relation, if it is about that one. -/
def arity? (relation : Relation) : Atom → Option Nat
  | .fact listed pattern => if listed = relation then some pattern.length else none
  | .call _ _ => none

/-- The atom has the length that is expected of it. -/
def Fits (arities : Relation → Option Nat) : Atom → Prop
  | .fact relation pattern => arities relation = some pattern.length
  | .call rule arguments => arguments.length = rule.arity

/-- The atom has another length than expected, and the error says so. -/
inductive Refused (arities : Relation → Option Nat) : Atom → ArityError → Prop
  | fact {relation : Relation} {pattern : Pattern} {expected : Nat}
      (known : arities relation = some expected) (different : expected ≠ pattern.length) :
      Refused arities (.fact relation pattern) (.relation relation.name expected pattern.length)
  | call {rule : Rule} {arguments : Pattern} (different : arguments.length ≠ rule.arity) :
      Refused arities (.call rule arguments) (.rule rule.name rule.arity arguments.length)

variable {arities : Relation → Option Nat} {atom : Atom} {error : ArityError}

theorem Refused.not_fits (refused : atom.Refused arities error) : ¬ atom.Fits arities := by
  cases refused with
  | fact known different =>
      intro fits
      exact different (Option.some.inj (known.symm.trans fits))
  | call different => exact different

theorem Refused.unique {other : ArityError} (refused : atom.Refused arities error)
    (otherwise : atom.Refused arities other) : error = other := by
  cases refused with
  | fact known different =>
      cases otherwise with
      | fact otherKnown _ => rw [Option.some.inj (known.symm.trans otherKnown)]
  | call different =>
      cases otherwise with
      | call _ => rfl

/-- The error of the leftmost atom that does not fit. -/
def FirstRefused (arities : Relation → Option Nat) (atoms : List Atom) (error : ArityError) :
    Prop :=
  ∃ before atom after, atoms = before ++ atom :: after ∧
    (∀ earlier ∈ before, earlier.Fits arities) ∧ atom.Refused arities error

theorem FirstRefused.not_fits {atoms : List Atom} (first : FirstRefused arities atoms error) :
    ¬ ∀ atom ∈ atoms, atom.Fits arities := by
  obtain ⟨before, atom, after, rfl, _, refused⟩ := first
  intro fits
  exact refused.not_fits (fits atom (List.mem_append_right _ (List.mem_cons_self ..)))

theorem FirstRefused.unique {atoms : List Atom} {other : ArityError}
    (first : FirstRefused arities atoms error) (second : FirstRefused arities atoms other) :
    error = other := by
  obtain ⟨before, atom, after, rfl, fits, refused⟩ := first
  obtain ⟨otherBefore, otherAtom, otherAfter, split, otherFits, otherRefused⟩ := second
  rcases List.append_eq_append_iff.1 split with ⟨gap, rfl, rest⟩ | ⟨gap, rfl, rest⟩
  · cases gap with
    | nil =>
        obtain ⟨rfl, _⟩ := List.cons.inj rest
        exact refused.unique otherRefused
    | cons head tail =>
        obtain ⟨rfl, _⟩ := List.cons.inj rest
        exact absurd
          (otherFits atom (List.mem_append_right _ (List.mem_cons_self ..))) refused.not_fits
  · cases gap with
    | nil =>
        obtain ⟨rfl, _⟩ := List.cons.inj rest
        exact refused.unique otherRefused
    | cons head tail =>
        obtain ⟨rfl, _⟩ := List.cons.inj rest
        exact absurd
          (fits otherAtom (List.mem_append_right _ (List.mem_cons_self ..)))
          otherRefused.not_fits

/-- What was refused stays refused when more atoms follow. -/
theorem FirstRefused.append {atoms : List Atom} (first : FirstRefused arities atoms error)
    (rest : List Atom) : FirstRefused arities (atoms ++ rest) error := by
  obtain ⟨before, atom, after, rfl, fits, refused⟩ := first
  exact ⟨before, atom, after ++ rest, by rw [List.append_assoc, List.cons_append], fits, refused⟩

end Atom

namespace Goal

/-- The facts and calls of a goal, from left to right. -/
def atoms : Goal → List Atom
  | .fact relation pattern => [.fact relation pattern]
  | .conj left right => atoms left ++ atoms right
  | .disj left right => atoms left ++ atoms right
  | .call rule arguments => [.call rule arguments]

/-- The arity of each relation: the fixed one, or the length of its leftmost pattern. -/
def arities (state : State) (goal : Goal) (relation : Relation) : Option Nat :=
  (state.table relation).arity.or (goal.atoms.findSome? (Atom.arity? relation))

/-- The relations of some facts that have no arity yet, from left to right. -/
def unfixed (state : State) (atoms : List Atom) : List Relation :=
  (atoms.filterMap Atom.relation?).filter fun relation => (state.table relation).arity.isNone

variable {state after : State} {goal left right : Goal} {pending extended : PendingArities}
  {atoms rest : List Atom}

/-! ## The check -/

/-- The arities that are expected while atoms are still to come. -/
def expectedArities (state : State) (pending : PendingArities) (atoms : List Atom)
    (relation : Relation) : Option Nat :=
  (expectedArity state pending relation).or (atoms.findSome? (Atom.arity? relation))

theorem expectedArities_nil (goal : Goal) :
    expectedArities state [] goal.atoms = goal.arities state := by
  funext relation
  simp only [expectedArities, expectedArity, arities]
  cases (state.table relation).arity <;> rfl

/-- What the check of some atoms comes to that are followed by others. -/
inductive Outcome (state : State) (pending : PendingArities) (atoms rest : List Atom) :
    Except ArityError PendingArities → Prop
  | passed {extended : PendingArities}
      (fits : ∀ atom ∈ atoms, atom.Fits (expectedArities state pending (atoms ++ rest)))
      (same : expectedArities state extended rest =
        expectedArities state pending (atoms ++ rest))
      (order : ∀ later, (extended.map Prod.fst ++ later).eraseDups =
        (pending.map Prod.fst ++ unfixed state atoms ++ later).eraseDups) :
      Outcome state pending atoms rest (.ok extended)
  | refused {error : ArityError}
      (first : Atom.FirstRefused (expectedArities state pending (atoms ++ rest)) atoms error) :
      Outcome state pending atoms rest (.error error)

theorem unfixed_append (state : State) (early late : List Atom) :
    unfixed state (early ++ late) = unfixed state early ++ unfixed state late := by
  simp only [unfixed, List.filterMap_append, List.filter_append]

/-- A second occurrence does not matter. -/
theorem eraseDups_append_cons_of_mem {early late : List Relation} {relation : Relation}
    (member : relation ∈ early) :
    (early ++ relation :: late).eraseDups = (early ++ late).eraseDups := by
  simp [List.eraseDups_append, List.removeAll, member]

theorem eraseDups_of_nodup {relations : List Relation} (distinct : relations.Nodup) :
    relations.eraseDups = relations := by
  induction relations with
  | nil => rfl
  | cons head tail inductionHypothesis =>
      rw [List.nodup_cons] at distinct
      have others : tail.filter (fun other => !other == head) = tail := by
        rw [List.filter_eq_self]
        intro other member
        have different : other ≠ head := fun same => distinct.1 (same ▸ member)
        simp [different]
      rw [List.eraseDups_cons, others, inductionHypothesis distinct.2]

/-- A fact of the length that is expected already says nothing new. -/
theorem expectedArities_of_expected {relation : Relation} {pattern : Pattern}
    (expected : expectedArity state pending relation = some pattern.length) (rest : List Atom) :
    expectedArities state pending rest =
      expectedArities state pending (.fact relation pattern :: rest) := by
  funext tested
  simp only [expectedArities, List.findSome?_cons, Atom.arity?]
  by_cases here : relation = tested
  · rw [← here, expected, Option.some_or, Option.some_or]
  · rw [if_neg here]

/-- A length that is pending counts as if the fact were still to come. -/
theorem expectedArities_append (relation : Relation) (pattern : Pattern) (rest : List Atom) :
    expectedArities state (pending ++ [(relation, pattern.length)]) rest =
      expectedArities state pending (.fact relation pattern :: rest) := by
  funext tested
  simp only [expectedArities, expectedArity_append, List.findSome?_cons, Atom.arity?,
    Option.or_assoc]
  by_cases here : relation = tested
  · rw [if_pos here, if_pos here.symm, Option.some_or]
  · rw [if_neg here, if_neg (Ne.symm here), Option.none_or]

/-- A relation with an expected arity has that arity already, or is pending. -/
theorem eraseDups_of_expected {relation : Relation} {arity : Nat}
    (expected : expectedArity state pending relation = some arity) (pattern : Pattern)
    (later : List Relation) :
    (pending.map Prod.fst ++ later).eraseDups =
      (pending.map Prod.fst ++ unfixed state [.fact relation pattern] ++ later).eraseDups := by
  cases fixed : (state.table relation).arity with
  | some arity => simp [unfixed, Atom.relation?, fixed]
  | none =>
      simp only [expectedArity, fixed] at expected
      have listed : relation ∈ pending.map Prod.fst := by
        obtain ⟨before, after, rfl, _⟩ := List.lookup_eq_some_iff.1 expected
        simp
      have alone : unfixed state [.fact relation pattern] = [relation] := by
        simp [unfixed, Atom.relation?, fixed]
      rw [alone, List.append_assoc, List.singleton_append]
      exact (eraseDups_append_cons_of_mem listed).symm

theorem outcome_fact (relation : Relation) (pattern : Pattern) (rest : List Atom) :
    Outcome state pending [.fact relation pattern] rest
      (check state (.fact relation pattern) pending) := by
  cases expected : expectedArity state pending relation with
  | some arity =>
      have known : expectedArities state pending (.fact relation pattern :: rest) relation =
          some arity := by
        rw [expectedArities, expected, Option.some_or]
      simp only [check, expected]
      by_cases same : arity = pattern.length
      · subst same
        rw [if_pos rfl]
        refine .passed ?_ (expectedArities_of_expected expected rest)
          (eraseDups_of_expected expected pattern)
        intro atom member
        rw [List.mem_singleton.1 member]
        exact known
      · rw [if_neg same]
        exact .refused ⟨[], .fact relation pattern, [], rfl,
          fun earlier member => absurd member List.not_mem_nil, .fact known same⟩
  | none =>
      have absent : (state.table relation).arity = none := by
        simp only [expectedArity] at expected
        split at expected
        · cases expected
        · assumption
      simp only [check, expected]
      refine .passed ?_ (expectedArities_append relation pattern rest) ?_
      · intro atom member
        rw [List.mem_singleton.1 member]
        simp [Atom.Fits, expectedArities, expected, Atom.arity?]
      · intro later
        simp [unfixed, Atom.relation?, absent]

theorem outcome_call (rule : Rule) (arguments : Pattern) (rest : List Atom) :
    Outcome state pending [.call rule arguments] rest
      (check state (.call rule arguments) pending) := by
  simp only [check, Rule.checkArity]
  by_cases same : arguments.length = rule.arity
  · rw [if_pos same]
    refine .passed ?_ ?_ ?_
    · intro atom member
      rw [List.mem_singleton.1 member]
      exact same
    · funext tested
      simp only [expectedArities, List.cons_append, List.nil_append, List.findSome?_cons,
        Atom.arity?]
    · intro later
      simp only [unfixed, List.filterMap_cons, Atom.relation?, List.filterMap_nil, List.filter_nil,
        List.append_nil]
  · rw [if_neg same]
    exact .refused ⟨[], .call rule arguments, [], rfl,
      fun earlier member => absurd member List.not_mem_nil, .call same⟩

/-- Both connectives are checked from left to right. -/
theorem outcome_both {first second : List Atom}
    (leftOutcome : Outcome state pending first (second ++ rest) (check state left pending))
    (rightOutcome : ∀ middle, Outcome state middle second rest (check state right middle)) :
    Outcome state pending (first ++ second) rest (check state (.conj left right) pending) := by
  simp only [check]
  generalize check state left pending = leftResult at leftOutcome
  cases leftOutcome with
  | refused first =>
      rw [← List.append_assoc] at first
      exact .refused (first.append second)
  | @passed middle leftFits leftSame leftOrder =>
      have rightOutcome := rightOutcome middle
      rw [← List.append_assoc] at leftFits leftSame
      simp only
      generalize check state right middle = rightResult at rightOutcome
      cases rightOutcome with
      | refused found =>
          rw [leftSame] at found
          obtain ⟨before, atom, after, rfl, fits, refused⟩ := found
          refine .refused ⟨first ++ before, atom, after, (List.append_assoc ..).symm, ?_, refused⟩
          intro earlier member
          rcases List.mem_append.1 member with early | late
          · exact leftFits earlier early
          · exact fits earlier late
      | passed rightFits rightSame rightOrder =>
          rw [leftSame] at rightFits
          refine .passed ?_ (rightSame.trans leftSame) ?_
          · intro atom member
            rcases List.mem_append.1 member with early | late
            · exact leftFits atom early
            · exact rightFits atom late
          · intro later
            rw [rightOrder, List.append_assoc, leftOrder, unfixed_append]
            simp only [List.append_assoc]

theorem outcome_check (goal : Goal) (pending : PendingArities) (rest : List Atom) :
    Outcome state pending goal.atoms rest (check state goal pending) := by
  induction goal generalizing pending rest with
  | fact relation pattern => exact outcome_fact relation pattern rest
  | conj left right leftHypothesis rightHypothesis =>
      exact outcome_both (leftHypothesis pending _) fun middle => rightHypothesis middle rest
  | disj left right leftHypothesis rightHypothesis =>
      exact outcome_both (leftHypothesis pending _) fun middle => rightHypothesis middle rest
  | call rule arguments => exact outcome_call rule arguments rest

/-! ## Fixing the arities -/

theorem expectedArity_of_mem {relation : Relation} {arity : Nat}
    (pendingUnfixed : Unfixed state pending) (member : (relation, arity) ∈ pending) :
    expectedArity state pending relation = some arity := by
  have absent := pendingUnfixed.absent relation (List.mem_map_of_mem member)
  have distinct := pendingUnfixed.distinct
  simp only [expectedArity, absent]
  obtain ⟨before, after, rfl⟩ := List.append_of_mem member
  rw [List.map_append, List.map_cons, List.nodup_append] at distinct
  refine List.lookup_eq_some_iff.2 ⟨before, after, rfl, fun entry listed => ?_⟩
  have different := distinct.2.2 entry.1 (List.mem_map_of_mem listed) relation
    (List.mem_cons_self ..)
  exact bne_iff_ne.2 different.symm

theorem of_commit (pendingUnfixed : Unfixed state pending)
    (success : commit pending state = .ok after) :
    after.declarations = state.declarations ∧
    after.journal =
      (pending.map fun entry => Event.arityFixed entry.1 entry.2).reverse ++ state.journal ∧
    ∀ relation, after.table relation =
      { state.table relation with arity := expectedArity state pending relation } := by
  induction pending generalizing state with
  | nil =>
      cases success
      refine ⟨rfl, rfl, fun relation => ?_⟩
      simp only [expectedArity, List.lookup_nil]
      rcases after.table relation with ⟨_ | arity, tuples⟩ <;> rfl
  | cons entry rest inductionHypothesis =>
      obtain ⟨relation, arity⟩ := entry
      have absent := pendingUnfixed.absent relation (List.mem_cons_self ..)
      obtain ⟨fixed, committed, restUnfixed, declarations, journal, tables⟩ :=
        pendingUnfixed.exists_commit_cons
      rw [committed] at success
      obtain ⟨laterDeclarations, laterJournal, laterTables⟩ :=
        inductionHypothesis restUnfixed success
      refine ⟨laterDeclarations.trans declarations, ?_, fun tested => ?_⟩
      · rw [laterJournal, journal, List.map_cons, List.reverse_cons, List.append_assoc,
          List.singleton_append]
      · rw [laterTables]
        simp only [expectedArity, tables]
        by_cases same : relation = tested
        · subst same
          simp [absent]
        · have different : (tested == relation) = false := beq_false_of_ne (Ne.symm same)
          simp only [if_neg same, List.lookup_cons, different]

/-- What the validation of a goal does to the state: it fixes the arity of each relation that had
none, in the order in which they occur first, with one line each. -/
structure Fixed (goal : Goal) (before after : State) : Prop where
  declarations : after.declarations = before.declarations
  tables : ∀ relation,
    after.table relation = { before.table relation with arity := goal.arities before relation }
  journal : ∃ fixed : PendingArities,
    fixed.map Prod.fst = (unfixed before goal.atoms).eraseDups ∧
    (∀ entry ∈ fixed, goal.arities before entry.1 = some entry.2) ∧
    after.journal =
      (fixed.map fun entry => Event.arityFixed entry.1 entry.2).reverse ++ before.journal ∧
    ∀ names, Journal.linesAfter names before.journal.length after.journal =
      fixed.map fun entry =>
        (.debug, "relation `" ++ entry.1.name ++ "` has arity " ++ toString entry.2)

theorem fixed_of_commit (checked : check state goal [] = .ok pending)
    (success : commit pending state = .ok after) : Fixed goal state after := by
  have pendingUnfixed :=
    unfixed_of_check checked ⟨List.nodup_nil, fun _ member => by cases member⟩
  obtain ⟨declarations, journal, tables⟩ := of_commit pendingUnfixed success
  have outcome : Outcome state [] goal.atoms [] (check state goal []) := outcome_check goal [] []
  rw [checked] at outcome
  cases outcome with
  | passed _ same order =>
      have known : expectedArity state pending = goal.arities state := by
        rw [List.append_nil, expectedArities_nil] at same
        rw [← same]
        funext relation
        simp [expectedArities]
      refine ⟨declarations, fun relation => ?_, pending, ?_, ?_, journal, fun names => ?_⟩
      · rw [tables, known]
      · have listed := order []
        rw [List.append_nil, List.append_nil, List.map_nil, List.nil_append] at listed
        rw [← listed, eraseDups_of_nodup pendingUnfixed.distinct]
      · intro entry member
        rw [← known]
        exact expectedArity_of_mem pendingUnfixed member
      · rw [journal]
        simp [Journal.linesAfter, Event.line?, List.filterMap_map, Function.comp_def]

theorem validate_eq_error_iff {error : ArityError} :
    validate goal state = .error error ↔ check state goal [] = .error error := by
  simp only [validate]
  cases checked : check state goal [] with
  | error found => simp
  | ok pending =>
      obtain ⟨committed, success⟩ := exists_commit
        (unfixed_of_check checked ⟨List.nodup_nil, fun _ member => by cases member⟩)
      simp [success]

/-- The check succeeds when all atoms fit; otherwise its error is that of the leftmost that does
not. -/
theorem check_nil_iff :
    ((∃ pending, check state goal [] = .ok pending) ↔
      ∀ atom ∈ goal.atoms, atom.Fits (goal.arities state)) ∧
    ∀ error, check state goal [] = .error error ↔
      Atom.FirstRefused (goal.arities state) goal.atoms error := by
  have outcome : Outcome state [] goal.atoms [] (check state goal []) := outcome_check goal [] []
  generalize check state goal [] = result at outcome
  cases outcome with
  | passed fits _ _ =>
      rw [List.append_nil, expectedArities_nil] at fits
      exact ⟨⟨fun _ => fits, fun _ => ⟨_, rfl⟩⟩, fun error =>
        ⟨fun absurdity => (by cases absurdity), fun first => absurd fits first.not_fits⟩⟩
  | refused first =>
      rw [List.append_nil, expectedArities_nil] at first
      refine ⟨⟨?_, fun fits => absurd fits first.not_fits⟩, fun error => ⟨?_, fun other => ?_⟩⟩
      · rintro ⟨pending, absurdity⟩
        cases absurdity
      · rintro ⟨⟩
        exact first
      · rw [first.unique other]

/-- A goal is valid when all its atoms fit. -/
theorem exists_validate_iff :
    (∃ after, validate goal state = .ok after) ↔
      ∀ atom ∈ goal.atoms, atom.Fits (goal.arities state) := by
  rw [← check_nil_iff.1]
  constructor
  · intro valid
    obtain ⟨after, success⟩ := valid
    simp only [validate] at success
    split at success
    · cases success
    · next pending checked => exact ⟨pending, checked⟩
  · intro checked
    obtain ⟨pending, success⟩ := checked
    exact exists_validate success

theorem fixed_of_validate (success : validate goal state = .ok after) : Fixed goal state after := by
  simp only [validate] at success
  split at success
  · cases success
  · next pending checked => exact fixed_of_commit checked success

theorem validate_refused_iff {error : ArityError} :
    validate goal state = .error error ↔
      Atom.FirstRefused (goal.arities state) goal.atoms error := by
  rw [validate_eq_error_iff]
  exact check_nil_iff.2 error

/-! ## Definitions that are refused -/

/-- To build a rule without rules inside it changes no table, and hence nothing for its body. -/
theorem define_of_plain {rule : Rule} (plain : rule.template.inner = []) (state : State) :
    rule.define state =
      match validate (rule.body state.nextId) (rule.opened state) with
      | .error error => (.error error, rule.opened state)
      | .ok validated => (.ok rule, validated.record (.defined rule (rule.body state.nextId))) := by
  have built : rule.build state =
      (⟨rule.parameters state.nextId, rule.body state.nextId⟩, rule.opened state) :=
    Prod.ext rfl (Rule.build_of_plain plain state)
  simp only [Rule.define, built, Rule.accept]
  cases validate (rule.body state.nextId) (rule.opened state) <;> rfl

/-- Such a rule is refused just when its body is not valid, for the same reason. -/
theorem define_refused_iff {rule : Rule} (plain : rule.template.inner = []) {error : ArityError} :
    (rule.define state).1 = .error error ↔
      validate (rule.body state.nextId) state = .error error := by
  have sameTables : validate (rule.body state.nextId) (rule.opened state) = .error error ↔
      validate (rule.body state.nextId) state = .error error := by
    rw [validate_refused_iff, validate_refused_iff]
    rfl
  rw [← sameTables, define_of_plain plain]
  cases validate (rule.body state.nextId) (rule.opened state) <;> simp

/-- When it is refused, nothing but the build has happened. -/
theorem of_define_refused {rule : Rule} (plain : rule.template.inner = []) {error : ArityError}
    (refused : (rule.define state).1 = .error error) :
    (rule.define state).2 = rule.opened state := by
  rw [define_of_plain plain] at refused ⊢
  cases valid : validate (rule.body state.nextId) (rule.opened state) with
  | error found => rfl
  | ok validated =>
      rw [valid] at refused
      cases refused

/-- Validation decides whether all facts and calls of a goal have the lengths that are expected of
them, and does all or nothing, also where arities are fixed in the state itself.  A definition whose
body is not valid is refused for the same reason, and then no table has changed and no line has been
written. -/
theorem validate_decides (goal : Goal) (state : State) :
    ((∃ after, validate goal state = .ok after) ↔
      ∀ atom ∈ goal.atoms, atom.Fits (goal.arities state)) ∧
    (∀ after, validate goal state = .ok after → Fixed goal state after) ∧
    (∀ error, validate goal state = .error error ↔
      Atom.FirstRefused (goal.arities state) goal.atoms error) ∧
    (∀ pending, check state goal [] = .ok pending → ∃ after, commit pending state = .ok after) ∧
    (validateInPlace goal state =
      match validate goal state with
      | .error error => (.error error, state)
      | .ok after => (.ok (), after)) ∧
    ∀ (rule : Rule) (error : ArityError), rule.template.inner = [] →
      ((rule.define state).1 = .error error ↔
        validate (rule.body state.nextId) state = .error error) ∧
      ((rule.define state).1 = .error error →
        Atom.FirstRefused ((rule.body state.nextId).arities state)
          (rule.body state.nextId).atoms error ∧
        (∀ relation, (rule.define state).2.table relation = state.table relation) ∧
        ∀ names, Journal.linesAfter names state.journal.length (rule.define state).2.journal =
          []) := by
  refine ⟨exists_validate_iff, fun _ => fixed_of_validate, fun _ => validate_refused_iff,
    fun pending => exists_commit_of_check, validateInPlace_eq goal state, ?_⟩
  intro rule error plain
  refine ⟨define_refused_iff plain, fun refused => ?_⟩
  have invalid := (define_refused_iff plain).1 refused
  rw [of_define_refused plain refused]
  refine ⟨validate_refused_iff.1 invalid, fun relation => rfl, fun names => ?_⟩
  simp [Rule.opened, Journal.linesAfter, Event.line?, State.record, State.declareAll]

/-- A rule whose body gives one relation two lengths. -/
def crossing : Rule where
  template :=
    { key := 0, name := "crossing", arity := 1, locals := [], inner := []
      body := .conj (.fact ⟨0, "edge"⟩ [.slot 0]) (.fact ⟨0, "edge"⟩ [.slot 0, .slot 0]) }
  captured := []
  rules := []

/-- The first pattern says the arity and the second is refused; no definition comes about and no
arity is fixed. -/
theorem validate_decides_crossing :
    validate (crossing.body 1) .initial = .error (.relation "edge" 1 2) ∧
    (crossing.define .initial).1 = .error (.relation "edge" 1 2) ∧
    (crossing.define .initial).2.table ⟨0, "edge"⟩ = State.initial.table ⟨0, "edge"⟩ := by
  obtain ⟨_, _, errors, _, _, defines⟩ := validate_decides (crossing.body 1) .initial
  have invalid : validate (crossing.body 1) .initial = .error (.relation "edge" 1 2) := by
    refine (errors _).2 ⟨[.fact ⟨0, "edge"⟩ [.var ⟨1⟩]],
      .fact ⟨0, "edge"⟩ [.var ⟨1⟩, .var ⟨1⟩], [], rfl, ?_, .fact rfl (by decide)⟩
    intro earlier member
    rw [List.mem_singleton.1 member]
    exact (rfl : some 1 = some 1)
  obtain ⟨refusedIff, unchanged⟩ := defines crossing (.relation "edge" 1 2) rfl
  have refused := refusedIff.2 invalid
  exact ⟨invalid, refused, (unchanged refused).2.1 _⟩

/-- Two relations of one name get an arity each. -/
example :
    (validate
      (.conj (.fact ⟨0, "edge"⟩ [.wildcard, .wildcard]) (.fact ⟨1, "edge"⟩ [.wildcard]))
      .initial).map
        (fun after => [(after.table ⟨0, "edge"⟩).arity, (after.table ⟨1, "edge"⟩).arity]) =
      .ok [some 2, some 1] :=
  rfl

end Goal

end GroundLogic
