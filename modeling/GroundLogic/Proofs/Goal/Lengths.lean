import GroundLogic.Proofs.Goal.Consistency
import GroundLogic.Proofs.Rule.Alike
import GroundLogic.Proofs.State.Growth

/-!
# Goals and rules of the right lengths

A goal suits a database when every fact has the arity that is fixed for its relation and every call
has the number of arguments of its rule.  Validation makes a goal suit; arities stay, so it suits
from then on, and so do all goals that are alike.

A rule is settled once all its bodies suit.  Building a body anew defines the rules inside it anew;
that fixes no arity that the first build has not fixed, and what was refused then is refused again
(`sameTables_build`).  So from its definition on, a rule can be called without any effect on the
tables (`Settled.sameTables_entered`).
-/

namespace GroundLogic

/-- All tables are as before. -/
def State.SameTables (before after : State) : Prop :=
  ∀ relation, after.table relation = before.table relation

namespace State.SameTables

variable {first second third : State}

theorem refl (state : State) : state.SameTables state :=
  fun _ => rfl

theorem trans (early : first.SameTables second) (late : second.SameTables third) :
    first.SameTables third :=
  fun relation => (late relation).trans (early relation)

theorem aritiesWithin (same : first.SameTables second) :
    first.database.AritiesWithin second.database := by
  intro relation arity fixed
  have sameTable := same relation
  simp only [State.table] at sameTable
  rw [sameTable]
  exact fixed

end State.SameTables

namespace Goal

variable {database larger : Database} {goal other : Goal} {state validated : State}

/-! ## Goals -/

/-- Every fact has the arity of its relation, and every call that of its rule. -/
def Suits (database : Database) : Goal → Prop
  | .fact relation pattern => (database.table relation).arity = some pattern.length
  | .conj left right => Suits database left ∧ Suits database right
  | .disj left right => Suits database left ∧ Suits database right
  | .call rule arguments => arguments.length = rule.arity

theorem Suits.mono (suits : goal.Suits database) (within : database.AritiesWithin larger) :
    goal.Suits larger := by
  induction goal with
  | fact relation pattern => exact within relation pattern.length suits
  | conj left right leftHypothesis rightHypothesis =>
      exact ⟨leftHypothesis suits.1, rightHypothesis suits.2⟩
  | disj left right leftHypothesis rightHypothesis =>
      exact ⟨leftHypothesis suits.1, rightHypothesis suits.2⟩
  | call rule arguments => exact suits

theorem Alike.suits (alike : goal.Alike other) (suits : goal.Suits database) :
    other.Suits database := by
  induction alike with
  | fact length =>
      simp only [Suits, length] at suits ⊢
      exact suits
  | conj _ _ firstHypothesis secondHypothesis =>
      exact ⟨firstHypothesis suits.1, secondHypothesis suits.2⟩
  | disj _ _ firstHypothesis secondHypothesis =>
      exact ⟨firstHypothesis suits.1, secondHypothesis suits.2⟩
  | call rules length =>
      simp only [Suits, length, rules.arity] at suits ⊢
      exact suits

theorem suits_iff_atoms :
    goal.Suits database ↔
      ∀ atom ∈ goal.atoms, atom.Fits fun relation => (database.table relation).arity := by
  induction goal with
  | fact relation pattern => simp [Suits, atoms, Atom.Fits]
  | conj left right leftHypothesis rightHypothesis =>
      simp only [Suits, atoms, List.forall_mem_append, leftHypothesis, rightHypothesis]
  | disj left right leftHypothesis rightHypothesis =>
      simp only [Suits, atoms, List.forall_mem_append, leftHypothesis, rightHypothesis]
  | call rule arguments => simp [Suits, atoms, Atom.Fits]

/-- What has been validated suits. -/
theorem suits_of_validate (success : validate goal state = .ok validated) :
    goal.Suits validated.database := by
  simp only [validate] at success
  split at success
  · cases success
  · next pending checked =>
      have fits := check_nil_iff.1.1 ⟨pending, checked⟩
      have tables := (fixed_of_commit checked success).tables
      rw [suits_iff_atoms]
      have sameArities : (fun relation => (validated.database.table relation).arity) =
          goal.arities state := by
        funext relation
        have sameTable := tables relation
        simp only [State.table] at sameTable
        rw [sameTable]
      rw [sameArities]
      exact fits

/-- The validation of a goal that suits has no effect. -/
theorem validate_of_suits (suits : goal.Suits state.database) :
    validate goal state = .ok state := by
  have checked : ∀ pending, check state goal pending = .ok pending := by
    induction goal with
    | fact relation pattern =>
        intro pending
        refine check_fact_iff.2 (.inl ⟨?_, rfl⟩)
        simp only [expectedArity, State.table]
        rw [suits]
    | conj left right leftHypothesis rightHypothesis =>
        exact fun pending => check_conj_iff.2
          ⟨pending, leftHypothesis suits.1 pending, rightHypothesis suits.2 pending⟩
    | disj left right leftHypothesis rightHypothesis =>
        exact fun pending => check_disj_iff.2
          ⟨pending, leftHypothesis suits.1 pending, rightHypothesis suits.2 pending⟩
    | call rule arguments => exact fun pending => check_call_iff.2 ⟨suits, rfl⟩
  simp only [validate, checked, commit]

end Goal

/-! ## Building again -/

namespace Rule

variable {rule other : Rule} {before now : State}

theorem aritiesWithin_define (rule : Rule) (before : State) :
    (rule.build before).2.database.AritiesWithin (rule.define before).2.database := by
  rcases rule.define_cases before with ⟨validated, passed, defined⟩ | ⟨error, _, refused⟩
  · rw [defined]
    exact (Goal.stores_of_validate passed).grows.aritiesWithin
  · rw [refused]
    exact .refl _

/-- Once its arities are fixed, an accepted body suits wherever it is built. -/
theorem suits_of_define {after : State} (alike : rule.Alike other)
    (defined : rule.define before = (.ok rule, after)) (base : Nat) :
    (other.body base).Suits after.database := by
  rcases rule.define_cases before with ⟨validated, passed, accepted⟩ | ⟨error, _, refused⟩
  · have suits := (alike.body before.nextId base).suits (Goal.suits_of_validate passed)
    rw [accepted] at defined
    cases defined
    exact suits
  · rw [refused] at defined
    cases defined

/-- To define a rule again changes no table if building it again does not. -/
theorem sameTables_define_of_build (alike : rule.Alike other)
    (within : (rule.define before).2.database.AritiesWithin now.database)
    (built : now.SameTables (other.build now).2) : now.SameTables (other.define now).2 := by
  rcases other.define_cases now with ⟨validated, passed, defined⟩ | ⟨error, _, refused⟩
  · rw [defined]
    rcases rule.define_cases before with ⟨_, _, accepted⟩ | ⟨error, rejected, _⟩
    · -- The body was accepted before, so it suits already.
      have suits := (suits_of_define alike accepted now.nextId).mono
        ((accepted ▸ within).trans built.aritiesWithin)
      rw [Goal.validate_of_suits suits] at passed
      cases passed
      exact built
    · -- The body was refused before, when fewer arities were fixed.
      rw [← (alike.body before.nextId now.nextId).validate_eq] at passed
      have fewer := ((aritiesWithin_define rule before).trans within).trans built.aritiesWithin
      obtain ⟨_, possible⟩ := Goal.exists_validate_of_within fewer passed
      rw [rejected] at possible
      cases possible
  · rw [refused]
    exact built

end Rule

namespace Template

mutual

/-- A build changes no table in a state that knows the arities of an earlier build. -/
theorem sameTables_build :
    ∀ (template : Template) {captured others : List Variable} {rules known : List Rule}
      {before now : State}, List.Forall₂ Rule.Alike rules known →
      (template.build captured rules before).database.AritiesWithin now.database →
      now.SameTables (template.build others known now)
  | ⟨key, name, arity, locals, inner, body⟩, captured, others, rules, known, before, now,
      alike, within => by
      rw [build] at within ⊢
      have here : Rule.Alike ⟨⟨key, name, arity, locals, inner, body⟩, captured, rules⟩
          ⟨⟨key, name, arity, locals, inner, body⟩, others, known⟩ :=
        Rule.alike_of_forall₂ rfl alike
      exact sameTables_defineEach inner (.cons here alike) within

theorem sameTables_defineEach :
    ∀ (templates : List Template) {scope others : List Variable} {known rules : List Rule}
      {before now : State}, List.Forall₂ Rule.Alike known rules →
      (defineEach templates scope known before).database.AritiesWithin now.database →
      now.SameTables (defineEach templates others rules now)
  | [], _, _, _, _, _, now, _, _ => by
      rw [defineEach]
      exact .refl now
  | template :: templates, scope, others, known, rules, before, now, alike, within => by
      rw [defineEach_cons] at within ⊢
      have here : Rule.Alike ⟨template, scope, known⟩ ⟨template, others, rules⟩ :=
        Rule.alike_of_forall₂ rfl alike
      have defined := (grows_defineEach templates scope _ _).aritiesWithin.trans within
      have built : now.SameTables (Rule.build ⟨template, others, rules⟩ now).2 :=
        sameTables_build template alike
          ((Rule.aritiesWithin_define ⟨template, scope, known⟩ before).trans defined)
      have first := Rule.sameTables_define_of_build here defined built
      exact first.trans
        (sameTables_defineEach templates (.cons here alike) (within.trans first.aritiesWithin))

end

end Template

/-! ## Settled rules -/

/-- All bodies suit, and to build one changes no table. -/
structure Rule.Settled (database : Database) (rule : Rule) : Prop where
  bodies : ∀ base, (rule.body base).Suits database
  build : ∀ state : State, database.AritiesWithin state.database →
    state.SameTables (rule.build state).2

namespace Rule

variable {rule accepted : Rule} {database larger : Database} {before after state : State}

theorem Settled.mono (settled : rule.Settled database) (within : database.AritiesWithin larger) :
    rule.Settled larger :=
  ⟨fun base => (settled.bodies base).mono within,
    fun state more => settled.build state (within.trans more)⟩

/-- A rule is settled as soon as it, or a rule that is alike, has been defined. -/
theorem settled_of_define (defined : accepted.define before = (.ok accepted, after))
    (alike : accepted.Alike rule) : rule.Settled after.database := by
  refine ⟨suits_of_define alike defined, fun state within => ?_⟩
  have fewer := aritiesWithin_define accepted before
  rw [defined] at fewer
  simp only [Rule.build, ← alike.template]
  exact Template.sameTables_build accepted.template alike.rules (fewer.trans within)

theorem Settled.sameTables_entered (settled : rule.Settled state.database)
    (arguments : Pattern) : state.SameTables (rule.entered arguments state) :=
  settled.build state (.refl _)

end Rule

end GroundLogic
