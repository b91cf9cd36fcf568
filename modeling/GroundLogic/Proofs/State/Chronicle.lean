import GroundLogic.Proofs.Renaming.Body
import GroundLogic.Proofs.State.Precedence
import Mathlib.Data.List.Nodup

/-!
# Events and the counter of variables

Variables are numbered in order of creation, and the journal tells which build created which of
them.  `Journal.Dated first events last` says that a journal fits to a counter that went from `first`
to `last`: every build took the next numbers, and whatever an event mentions had been created by
then.  So the variables of a build are younger than everything that came before it
(`Dated.of_build`), and every operation continues the journal in this way (`State.Continues`).
-/

namespace GroundLogic

variable {admitted wider : Variable → Prop}

/-- Every variable that an event has to do with is admitted: those of a build and of its body, and
those that a started environment binds. -/
def Event.Over (admitted : Variable → Prop) : Event → Prop
  | .built rule base =>
      (∀ own ∈ rule.frame base, admitted own) ∧ Goal.Over admitted (rule.body base)
  | .defined _ body => Goal.Over admitted body
  | .instantiated _ start => start.Over admitted
  | .arityFixed _ _ => True
  | .inserted _ _ => True
  | .registered _ => True

theorem Event.Over.mono {event : Event} (isOver : event.Over admitted)
    (more : ∀ unknown, admitted unknown → wider unknown) : event.Over wider := by
  cases event with
  | built rule base => exact ⟨fun own member => more own (isOver.1 own member), isOver.2.mono more⟩
  | defined rule body => exact Goal.Over.mono isOver more
  | instantiated rule start => exact Environment.Over.mono isOver more
  | arityFixed relation arity => trivial
  | inserted relation tuple => trivial
  | registered rule => trivial

/-- Whether an event is not a build, so that it creates no variables. -/
def Event.Plain (event : Event) : Prop :=
  ∀ rule base, event ≠ .built rule base

namespace Rule

theorem mem_frame_iff {rule : Rule} {base : Nat} {own : Variable} :
    own ∈ rule.frame base ↔ base ≤ own.id ∧ own.id < base + rule.template.frameSize := by
  simp only [frame, List.mem_map, List.mem_range]
  constructor
  · rintro ⟨position, bound, rfl⟩
    exact ⟨Nat.le_add_right .., Nat.add_lt_add_left bound _⟩
  · rintro ⟨lower, upper⟩
    refine ⟨own.id - base, by omega, ?_⟩
    rw [Nat.add_sub_cancel' lower]

theorem nodup_frame (rule : Rule) (base : Nat) : (rule.frame base).Nodup := by
  refine List.Nodup.map ?_ List.nodup_range
  intro first second same
  simpa using same

theorem mem_frame_of_mem_parameters {rule : Rule} {base : Nat} {own : Variable}
    (member : own ∈ rule.parameters base) : own ∈ rule.frame base := by
  obtain ⟨position, inRange, rfl⟩ := List.mem_map.1 member
  rw [List.mem_range] at inRange
  exact List.mem_map_of_mem
    (List.mem_range.2 (Nat.lt_of_lt_of_le inRange (Nat.le_add_right ..)))

theorem nodup_parameters (rule : Rule) (base : Nat) : (rule.parameters base).Nodup := by
  refine List.Nodup.map ?_ List.nodup_range
  intro first second same
  simpa using same

/-- The variables of a build at `base` are all younger than the given one. -/
def Newer (rule : Rule) (base : Nat) (known : Variable) : Prop :=
  ∀ own ∈ rule.frame base, known.id < own.id

theorem newer_of_lt {rule : Rule} {base : Nat} {known : Variable} (old : known.id < base) :
    rule.Newer base known :=
  fun _ member => Nat.lt_of_lt_of_le old (mem_frame_iff.1 member).1

/-- What a body mentions exists once the build has begun. -/
theorem below_body {rule : Rule} {base : Nat} (below : rule.Below base) :
    Goal.Below (base + rule.template.frameSize) (rule.body base) := by
  refine over_body (below.mono fun _ small => Nat.lt_of_lt_of_le small (Nat.le_add_right ..)) ?_
  intro position bound
  exact Nat.add_lt_add_left bound _

end Rule

namespace Journal

/-- While these events happened, the latest first, the number of the next variable went from
`first` to `last`. -/
inductive Dated (first : Nat) : Journal → Nat → Prop
  | start : Dated first [] first
  | later {events : Journal} {reached last : Nat} (before : Dated first events reached)
      (order : reached ≤ last) : Dated first events last
  | built {events : Journal} {rule : Rule} {base : Nat} (before : Dated first events base)
      (below : rule.Below base) :
      Dated first (.built rule base :: events) (base + rule.template.frameSize)
  | noted {events : Journal} {event : Event} {reached : Nat}
      (before : Dated first events reached) (plain : event.Plain)
      (below : event.Over fun unknown => unknown.id < reached) :
      Dated first (event :: events) reached

namespace Dated

variable {first middle last : Nat} {events more : Journal}

theorem append (early : Dated first events middle) (late : Dated middle more last) :
    Dated first (more ++ events) last := by
  induction late with
  | start => exact early
  | later _ order inductionHypothesis => exact inductionHypothesis.later order
  | built _ below inductionHypothesis => exact inductionHypothesis.built below
  | noted _ plain below inductionHypothesis => exact inductionHypothesis.noted plain below

theorem le (dated : Dated first events last) : first ≤ last := by
  induction dated with
  | start => exact Nat.le_refl _
  | later _ order inductionHypothesis => exact Nat.le_trans inductionHypothesis order
  | built _ _ inductionHypothesis => exact Nat.le_trans inductionHypothesis (Nat.le_add_right ..)
  | noted _ _ _ inductionHypothesis => exact inductionHypothesis

/-- Everything that events mention has been created. -/
theorem isOver (dated : Dated first events last) :
    ∀ event ∈ events, event.Over fun unknown => unknown.id < last := by
  induction dated with
  | start => exact fun event member => absurd member List.not_mem_nil
  | later _ order inductionHypothesis =>
      intro event member
      exact (inductionHypothesis event member).mono fun _ small =>
        Nat.lt_of_lt_of_le small order
  | built _ below inductionHypothesis =>
      intro event member
      rcases List.mem_cons.1 member with rfl | old
      · exact ⟨fun own ownMember => (Rule.mem_frame_iff.1 ownMember).2, Rule.below_body below⟩
      · exact (inductionHypothesis event old).mono fun _ small =>
          Nat.lt_of_lt_of_le small (Nat.le_add_right ..)
  | noted _ _ below inductionHypothesis =>
      intro event member
      rcases List.mem_cons.1 member with rfl | old
      · exact below
      · exact inductionHypothesis event old

/-- The events before a build happened before the numbers of its variables were reached. -/
theorem of_build {rule : Rule} {base : Nat} {earlier : Journal}
    (dated : Dated first (more ++ .built rule base :: earlier) last) :
    Dated first earlier base := by
  generalize whole : more ++ .built rule base :: earlier = events at dated
  induction dated generalizing more with
  | start => simp at whole
  | later _ _ inductionHypothesis => exact inductionHypothesis whole
  | built before _ inductionHypothesis =>
      cases more with
      | nil =>
          cases whole
          exact before
      | cons head tail => exact inductionHypothesis (List.cons.inj whole).2
  | noted _ plain _ inductionHypothesis =>
      cases more with
      | nil => exact absurd (List.cons.inj whole).1.symm (plain rule base)
      | cons head tail => exact inductionHypothesis (List.cons.inj whole).2

/-- Builds took numbers from the first one on. -/
theorem le_of_built {rule : Rule} {base : Nat} (dated : Dated first events last)
    (member : .built rule base ∈ events) : first ≤ base := by
  obtain ⟨later, earlier, rfl⟩ := List.append_of_mem member
  exact dated.of_build.le

/-- The variables of a build are younger than all that the events before it mention. -/
theorem over_earlier {rule : Rule} {base : Nat} {earlier : Journal}
    (dated : Dated first (more ++ .built rule base :: earlier) last) :
    ∀ event ∈ earlier, event.Over (rule.Newer base) :=
  fun event member => (dated.of_build.isOver event member).mono fun _ => Rule.newer_of_lt

end Dated

end Journal

/-- The second state comes after the first: its journal goes on where that of the first stops. -/
def State.Continues (before after : State) : Prop :=
  ∃ events, after.journal = events ++ before.journal ∧
    Journal.Dated before.nextId events after.nextId

namespace State.Continues

variable {first second third : State}

theorem refl (state : State) : state.Continues state :=
  ⟨[], rfl, .start⟩

theorem trans (early : first.Continues second) (late : second.Continues third) :
    first.Continues third := by
  obtain ⟨earlyEvents, earlyJournal, earlyDated⟩ := early
  obtain ⟨lateEvents, lateJournal, lateDated⟩ := late
  refine ⟨lateEvents ++ earlyEvents, ?_, earlyDated.append lateDated⟩
  rw [lateJournal, earlyJournal, List.append_assoc]

theorem dated {start : Nat} (continues : first.Continues second)
    (before : Journal.Dated start first.journal first.nextId) :
    Journal.Dated start second.journal second.nextId := by
  obtain ⟨events, journal, late⟩ := continues
  rw [journal]
  exact before.append late

theorem nextId_le (continues : first.Continues second) : first.nextId ≤ second.nextId := by
  obtain ⟨events, _, dated⟩ := continues
  exact dated.le

end State.Continues

/-! ## Operations on states -/

namespace State

theorem continues_record {state : State} {event : Event} (plain : event.Plain)
    (below : event.Over fun unknown => unknown.id < state.nextId) :
    state.Continues (state.record event) :=
  ⟨[event], rfl, .noted .start plain below⟩

theorem continues_declare (state : State) (declaration : Declaration) :
    state.Continues (state.declare declaration).2 :=
  ⟨[], rfl, .later .start (state.precedes_declare declaration).nextId_le⟩

theorem continues_of_checkArity {state checked : State} {relation : Relation} {actual : Nat}
    (success : state.checkArity relation actual = .ok checked) : state.Continues checked := by
  simp only [checkArity] at success
  split at success
  · cases success
    exact ⟨[.arityFixed relation actual], rfl, .noted .start (fun _ _ same => by cases same) trivial⟩
  · split at success
    · cases success
      exact .refl state
    · cases success

theorem continues_of_insert {state inserted : State} {relation : Relation} {tuple : Tuple}
    {isNew : Bool} (success : state.insert relation tuple = .ok (isNew, inserted)) :
    state.Continues inserted := by
  simp only [insert] at success
  split at success
  · cases success
  · next checked passed =>
      have noted : checked.Continues (checked.record (.inserted relation tuple)) :=
        continues_record (fun _ _ same => by cases same) trivial
      split at success <;> cases success
      · exact (continues_of_checkArity passed).trans noted
      · exact (continues_of_checkArity passed).trans noted

theorem continues_insertAll (state : State) (relation : Relation) (tuples : List Tuple) :
    state.Continues (state.insertAll relation tuples).2 := by
  induction tuples generalizing state with
  | nil => exact .refl state
  | cons tuple rest inductionHypothesis =>
      simp only [insertAll]
      cases inserted : state.insert relation tuple with
      | error error => exact .refl state
      | ok result =>
          have later := (continues_of_insert inserted).trans (inductionHypothesis result.2)
          rcases others : result.2.insertAll relation rest with ⟨_ | _, final⟩ <;>
            simp only [others] <;> rw [others] at later <;> exact later

end State

namespace Goal

theorem continues_of_commit {pending : PendingArities} {state committed : State}
    (success : commit pending state = .ok committed) : state.Continues committed := by
  induction pending generalizing state with
  | nil =>
      cases success
      exact .refl _
  | cons entry rest inductionHypothesis =>
      obtain ⟨relation, arity⟩ := entry
      simp only [commit] at success
      split at success
      · cases success
      · next fixed passed =>
          exact (State.continues_of_checkArity passed).trans (inductionHypothesis success)

theorem continues_of_validate {goal : Goal} {state validated : State}
    (success : validate goal state = .ok validated) : state.Continues validated := by
  simp only [validate] at success
  split at success
  · cases success
  · exact continues_of_commit success

end Goal

/-! ## Builds -/

theorem Rule.continues_of_accept {rule : Rule} {body : Goal} {state accepted : State}
    (bodyBelow : Goal.Below state.nextId body)
    (success : rule.accept body state = .ok accepted) : state.Continues accepted := by
  simp only [accept] at success
  split at success
  · cases success
  · next validated passed =>
      cases success
      have continues := Goal.continues_of_validate passed
      refine continues.trans (State.continues_record (fun _ _ same => by cases same) ?_)
      exact bodyBelow.mono fun _ small => Nat.lt_of_lt_of_le small continues.nextId_le

theorem Rule.continues_opened {rule : Rule} {state : State} (below : rule.Below state.nextId) :
    state.Continues (rule.opened state) := by
  refine ⟨[.built rule state.nextId], rfl, ?_⟩
  rw [nextId_opened]
  exact .built .start below

namespace Template

mutual

theorem continues_build :
    ∀ (template : Template) (captured : List Variable) (rules : List Rule) (state : State),
      Rule.Below state.nextId ⟨template, captured, rules⟩ →
      (Rule.opened ⟨template, captured, rules⟩ state).Continues
        (template.build captured rules state)
  | ⟨key, name, arity, locals, inner, body⟩, captured, rules, state, below => by
      let rule : Rule := ⟨⟨key, name, arity, locals, inner, body⟩, captured, rules⟩
      have grown : rule.Below (rule.opened state).nextId := by
        rw [Rule.nextId_opened]
        exact below.mono fun _ small => Nat.lt_of_lt_of_le small (Nat.le_add_right ..)
      rw [build]
      refine continues_defineEach inner _ _ _ ?_ ?_
      · refine Rule.over_scope grown fun position bound => ?_
        rw [Rule.nextId_opened]
        exact Nat.add_lt_add_left bound _
      · intro known member
        rcases List.mem_cons.1 member with rfl | outer
        · exact grown
        · exact grown.of_rules known outer

theorem continues_defineEach :
    ∀ (templates : List Template) (scope : List Variable) (known : List Rule) (state : State),
      (∀ unknown ∈ scope, unknown.id < state.nextId) →
      (∀ rule ∈ known, rule.Below state.nextId) →
      state.Continues (defineEach templates scope known state)
  | [], _, _, state, _, _ => by
      rw [defineEach]
      exact .refl state
  | template :: templates, scope, known, state, scopeBelow, knownBelow => by
      have below : Rule.Below state.nextId ⟨template, scope, known⟩ :=
        .intro scopeBelow knownBelow
      have opened := Rule.continues_opened below
      have built := continues_build template scope known state below
      rw [defineEach]
      have defined : state.Continues
          (match Rule.accept ⟨template, scope, known⟩
              (Rule.body ⟨template, scope, known⟩ state.nextId)
              (template.build scope known state) with
            | .error _ => template.build scope known state
            | .ok accepted => accepted) := by
        split
        · exact opened.trans built
        · next accepted success =>
            refine (opened.trans built).trans (Rule.continues_of_accept ?_ success)
            refine (Rule.below_body below).mono fun _ small => Nat.lt_of_lt_of_le small ?_
            rw [← Rule.nextId_opened]
            exact built.nextId_le
      have grown := defined.nextId_le
      refine defined.trans (continues_defineEach templates scope _ _ ?_ ?_)
      · exact fun unknown member => Nat.lt_of_lt_of_le (scopeBelow unknown member) grown
      · intro rule member
        rcases List.mem_cons.1 member with rfl | old
        · exact below.mono fun _ small => Nat.lt_of_lt_of_le small grown
        · exact (knownBelow rule old).mono fun _ small => Nat.lt_of_lt_of_le small grown

end

end Template

namespace Rule

variable {rule : Rule} {state : State}

theorem opened_continues_build (below : rule.Below state.nextId) :
    (rule.opened state).Continues (rule.build state).2 := by
  cases rule
  exact Template.continues_build _ _ _ state below

theorem continues_build (below : rule.Below state.nextId) :
    state.Continues (rule.build state).2 :=
  (continues_opened below).trans (opened_continues_build below)

theorem continues_define (below : rule.Below state.nextId) :
    state.Continues (rule.define state).2 := by
  simp only [define]
  split
  · exact continues_build below
  · next accepted success =>
      refine (continues_build below).trans (continues_of_accept ?_ success)
      exact (below_body below).mono fun _ small =>
        Nat.lt_of_lt_of_le small (rule.frame_le_build state)

theorem continues_entered (arguments : Pattern) (below : rule.Below state.nextId) :
    state.Continues (rule.entered arguments state) := by
  refine (continues_build below).trans (State.continues_record (fun _ _ same => by cases same) ?_)
  refine over_entry (fun position bound => ?_) arguments
  exact Nat.lt_of_lt_of_le (Nat.add_lt_add_left bound _) (rule.frame_le_build state)

/-- Rules that stand in a goal outside any body have no frame around them. -/
theorem continues_expand (below : rule.Below state.nextId)
    (frameless : rule.template.frameSize = 0) : state.Continues (rule.expand state).2 := by
  refine Template.continues_defineEach _ _ _ state ?_ ?_
  · refine over_scope below fun position bound => ?_
    rw [frameless] at bound
    exact absurd bound (Nat.not_lt_zero _)
  · intro known member
    rcases List.mem_cons.1 member with rfl | outer
    · exact below
    · exact below.of_rules known outer

end Rule

end GroundLogic
