import GroundLogic.Proofs.Search.Entering
import GroundLogic.Proofs.Session.Interleaving

/-!
# Fresh variables

In a run from the beginning, the variables of every build are younger than everything that came
before it, in this stream and in all others: bodies, environments, arguments.  So the parameters of
a call never collide with anything, and a call can always be entered (`instantiate_fresh`).
-/

namespace GroundLogic

/-! ## What open streams know -/

namespace Cursor

variable {admitted wider : Variable → Prop} {cursor : Cursor} {state after : State}

/-- Every variable that the rest of a stream may look at is admitted.  A scan binds nothing and
looks at no variables. -/
def Over (admitted : Variable → Prop) : Cursor → Prop
  | .matching _ => True
  | .solving search => search.Over admitted
  | .answering answers =>
      answers.search.Over admitted ∧ Pattern.Over admitted answers.pattern ∧
        ∀ parameter ∈ answers.parameters, admitted parameter

abbrev Below (bound : Nat) (cursor : Cursor) : Prop :=
  cursor.Over fun unknown => unknown.id < bound

/-- The call that the next step of a stream enters. -/
def Entering : Cursor → Rule → Pattern → Environment → Prop
  | .matching _, _, _, _ => False
  | .solving search, rule, arguments, env => search.Entering rule arguments env
  | .answering answers, rule, arguments, env => answers.search.Entering rule arguments env

theorem Over.mono (isOver : cursor.Over admitted)
    (more : ∀ unknown, admitted unknown → wider unknown) : cursor.Over wider := by
  cases cursor with
  | matching found => trivial
  | solving search => exact Search.Over.mono isOver more
  | answering answers =>
      exact ⟨isOver.1.mono more, isOver.2.1.mono more, fun parameter member =>
        more parameter (isOver.2.2 parameter member)⟩

theorem Entering.over {rule : Rule} {arguments : Pattern} {env : Environment}
    (entering : cursor.Entering rule arguments env) (isOver : cursor.Over admitted) :
    Pattern.Over admitted arguments ∧ env.Over admitted := by
  cases cursor with
  | matching found => exact entering.elim
  | solving search => exact (Search.Entering.over entering isOver).2
  | answering answers => exact (Search.Entering.over entering isOver.1).2

theorem continues_pull (fuel : Nat) (below : cursor.Below state.nextId) :
    state.Continues (cursor.pull fuel state).2.2 ∧
      (cursor.pull fuel state).2.1.Below (cursor.pull fuel state).2.2.nextId := by
  cases cursor with
  | matching found =>
      simp only [pull]
      rcases found.next with ⟨_ | _, rest⟩ <;> exact ⟨.refl state, trivial⟩
  | solving search => exact Search.continues_pull fuel below
  | answering answers =>
      obtain ⟨searchBelow, patternBelow, parametersBelow⟩ := below
      obtain ⟨continues, restBelow⟩ := Search.continues_pull fuel searchBelow
      have grown := continues.nextId_le
      refine ⟨continues, restBelow, ?_, ?_⟩
      · exact patternBelow.mono fun _ small => Nat.lt_of_lt_of_le small grown
      · exact fun parameter member => Nat.lt_of_lt_of_le (parametersBelow parameter member) grown

end Cursor

namespace Source

theorem continues_of_opening {source : Source} {cursor : Cursor} {state after : State}
    (below : source.Below state.nextId)
    (opened : source.opening state = some (cursor, after)) :
    state.Continues after ∧ cursor.Below after.nextId := by
  cases source with
  | evaluate goal env =>
      cases opened
      exact ⟨.refl state, Goal.over_start below.1 below.2 _⟩
  | solve goal =>
      obtain ⟨validated, rfl⟩ := validate_of_opening opened
      have continues := Goal.continues_of_validate validated
      refine ⟨continues, Goal.over_start ?_ (Environment.over_empty _) _⟩
      exact Goal.Over.mono below fun _ small => Nat.lt_of_lt_of_le small continues.nextId_le
  | iterate query =>
      simp only [opening, RuleQuery.enumerate, Rule.instantiate_eq] at opened
      cases opened
      have entered := Rule.continues_entered query.pattern below.1
      have room := query.rule.frame_le_entered query.pattern state
      have frame : ∀ position < query.rule.template.frameSize,
          state.nextId + position < (query.rule.entered query.pattern state).nextId :=
        fun position bound => Nat.lt_of_lt_of_le (Nat.add_lt_add_left bound _) room
      refine ⟨entered, Goal.over_start ?_ (Rule.over_entry frame _) _, ?_, ?_⟩
      · exact (Rule.below_body below.1).mono fun _ small => Nat.lt_of_lt_of_le small room
      · exact below.2.mono fun _ small => Nat.lt_of_lt_of_le small entered.nextId_le
      · intro parameter member
        have own := Rule.mem_frame_iff.1 (Rule.mem_frame_of_mem_parameters member)
        exact Nat.lt_of_lt_of_le own.2 room
  | scan relation pattern =>
      obtain ⟨checked, rfl⟩ := checkArity_of_opening opened
      exact ⟨State.continues_of_checkArity checked, trivial⟩

end Source

/-! ## Operations -/

/-- The variables that an operation mentions have been created.  Nothing is noted by hand but the
registration of a rule, and rules outside any body have no variables of their own. -/
def Operation.Below (bound : Nat) : Operation → Prop
  | .define rule => rule.Below bound
  | .expand rule => rule.Below bound ∧ rule.template.frameSize = 0
  | .ask _ rule arguments =>
      rule.Below bound ∧ Pattern.Over (fun unknown => unknown.id < bound) arguments
  | .record event => ∃ rule, event = .registered rule
  | .declare _ => True
  | .validate _ => True
  | .query _ _ => True

theorem Rule.continues_of_succeeds {fuel : Nat} {rule : Rule} {arguments : Pattern}
    {state after : State} {truth : Option Bool} (below : rule.Below state.nextId)
    (success : rule.succeeds fuel arguments state = .ok (truth, after)) :
    state.Continues after := by
  have continues : state.Continues (rule.first fuel arguments state).2 := by
    have entered := continues_entered arguments below
    have room := rule.frame_le_entered arguments state
    have frame : ∀ position < rule.template.frameSize,
        state.nextId + position < (rule.entered arguments state).nextId :=
      fun position bound => Nat.lt_of_lt_of_le (Nat.add_lt_add_left bound _) room
    have bodyBelow := (below_body below).mono fun _ small => Nat.lt_of_lt_of_le small room
    simp only [first, instantiate_eq]
    exact entered.trans
      (Search.continues_pull fuel
        (Goal.over_start bodyBelow (over_entry frame arguments) _)).1
  simp only [succeeds] at success
  split at success
  · cases success
  · rcases solution : rule.first fuel arguments state with ⟨_ | _ | _, final⟩ <;>
      rw [solution] at success continues <;> cases success <;> exact continues

theorem Operation.continues_run {operation : Operation} {state : State}
    (below : operation.Below state.nextId) : state.Continues (operation.run state) := by
  cases operation with
  | declare declaration => exact state.continues_declare declaration
  | validate goal =>
      simp only [run]
      cases validated : goal.validate state with
      | error error => exact .refl state
      | ok after => exact Goal.continues_of_validate validated
  | define rule => exact Rule.continues_define below
  | expand rule => exact Rule.continues_expand below.1 below.2
  | query relation pattern =>
      simp only [run, State.query]
      cases checked : state.checkArity relation pattern.length with
      | error error => exact .refl state
      | ok after => exact State.continues_of_checkArity checked
  | ask fuel rule arguments =>
      simp only [run]
      cases asked : rule.succeeds fuel arguments state with
      | error error => exact .refl state
      | ok result => exact Rule.continues_of_succeeds below.1 asked
  | record event =>
      obtain ⟨rule, rfl⟩ := below
      exact State.continues_record (fun _ _ same => by cases same) trivial

/-! ## Runs from the beginning -/

namespace Desk

/-- A move mentions created variables only. -/
def Knows (desk : Desk) : Move → Prop
  | .operate operation => operation.Below desk.state.nextId
  | .start source => source.Below desk.state.nextId
  | .clone _ => True
  | .drop _ => True
  | .pull _ _ => True

/-- The desks that come about from the initial state by insertions and moves, in any order. -/
inductive Arises : Desk → Prop
  | initial : Arises ⟨.initial, []⟩
  | insert {desk : Desk} (before : Arises desk) (relation : Relation) (tuples : List Tuple) :
      Arises { desk with state := (desk.state.insertAll relation tuples).2 }
  | move {desk : Desk} {next : Move} (before : Arises desk) (known : desk.Knows next) :
      Arises (desk.move next)

/-- The journal fits to the counter, and streams know created variables only. -/
structure Dated (desk : Desk) : Prop where
  journal : Journal.Dated 1 desk.state.journal desk.state.nextId
  streams : ∀ stream ∈ desk.streams, stream.cursor.Below desk.state.nextId

variable {desk : Desk}

theorem Dated.grow {state : State} (dated : desk.Dated) (continues : desk.state.Continues state) :
    Dated { desk with state := state } := by
  refine ⟨continues.dated dated.journal, fun stream member => ?_⟩
  exact (dated.streams stream member).mono fun _ small =>
    Nat.lt_of_lt_of_le small continues.nextId_le

theorem Dated.move {next : Move} (dated : desk.Dated) (known : desk.Knows next) :
    (desk.move next).Dated := by
  cases next with
  | operate operation => exact dated.grow (Operation.continues_run known)
  | start source =>
      simp only [Desk.move]
      cases opening : source.opening desk.state with
      | none => exact dated
      | some result =>
          obtain ⟨continues, below⟩ := Source.continues_of_opening known opening
          obtain ⟨journal, streams⟩ := dated.grow continues
          refine ⟨journal, fun stream member => ?_⟩
          rcases List.mem_append.1 member with before | new
          · exact streams stream before
          · rw [List.mem_singleton.1 new]
            exact below
  | clone index =>
      simp only [Desk.move]
      cases found : desk.streams[index]? with
      | none => exact dated
      | some original =>
          refine ⟨dated.journal, fun stream member => ?_⟩
          rcases List.mem_append.1 member with before | new
          · exact dated.streams stream before
          · rw [List.mem_singleton.1 new]
            exact dated.streams original (List.mem_of_getElem? found)
  | drop index =>
      exact ⟨dated.journal, fun stream member =>
        dated.streams stream (List.mem_of_mem_eraseIdx member)⟩
  | pull index fuel =>
      simp only [Desk.move]
      cases found : desk.streams[index]? with
      | none => exact dated
      | some pulled =>
          obtain ⟨continues, below⟩ :=
            Cursor.continues_pull fuel (dated.streams pulled (List.mem_of_getElem? found))
          obtain ⟨journal, streams⟩ := dated.grow continues
          refine ⟨journal, fun stream member => ?_⟩
          rcases List.mem_or_eq_of_mem_set member with before | same
          · exact streams stream before
          · rw [same]
            exact below

theorem dated_of_arises (arises : desk.Arises) : desk.Dated := by
  induction arises with
  | initial => exact ⟨.start, fun stream member => absurd member List.not_mem_nil⟩
  | insert _ relation tuples inductionHypothesis =>
      exact inductionHypothesis.grow (State.continues_insertAll _ relation tuples)
  | move _ known inductionHypothesis => exact inductionHypothesis.move known

/-- The calls that may be entered next: those that an open stream has come to, and those that are
made from outside. -/
def Calls (desk : Desk) (rule : Rule) (arguments : Pattern) (env : Environment) : Prop :=
  (∃ stream ∈ desk.streams, stream.cursor.Entering rule arguments env) ∨
    (desk.Knows (.start (.iterate ⟨rule, arguments⟩)) ∧ env = .empty)

/-- In every run from the beginning, the variables of a build are distinct and younger than
everything that happened before it, so no two builds share any.  Whatever rule is called next, its
variables are younger than all that has happened, than all that the open streams keep, and than the
arguments and the environment of the call; and the call can be entered, in an environment that binds
exactly the parameters at concrete positions. -/
theorem instantiate_fresh (arises : desk.Arises) :
    (∀ later rule base earlier, desk.state.journal = later ++ .built rule base :: earlier →
      (rule.frame base).Nodup ∧ (∀ event ∈ earlier, event.Over (rule.Newer base)) ∧
        ∀ other start, .built other start ∈ earlier →
          (rule.frame base).Disjoint (other.frame start)) ∧
    ∀ (rule : Rule) (arguments : Pattern),
      (∀ event ∈ desk.state.journal, event.Over (rule.Newer desk.state.nextId)) ∧
      (∀ stream ∈ desk.streams, stream.cursor.Over (rule.Newer desk.state.nextId)) ∧
      (∀ env, desk.Calls rule arguments env →
        Pattern.Over (rule.Newer desk.state.nextId) arguments ∧
          env.Over (rule.Newer desk.state.nextId)) ∧
      ∃ made after, rule.instantiate arguments desk.state = (some made, after) ∧
        made.parameters.Nodup ∧ made.parameters ⊆ rule.frame desk.state.nextId ∧
        ∀ parameter constant, made.start.get? parameter = some constant ↔
          (Term.value constant, parameter) ∈ arguments.zip made.parameters := by
  obtain ⟨journal, streams⟩ := dated_of_arises arises
  constructor
  · intro later rule base earlier split
    rw [split] at journal
    refine ⟨rule.nodup_frame base, journal.over_earlier, fun other start member own here there => ?_⟩
    exact Nat.lt_irrefl _ ((journal.over_earlier _ member).1 own there own here)
  · intro rule arguments
    have newer : ∀ known : Variable, known.id < desk.state.nextId →
        rule.Newer desk.state.nextId known := fun _ => Rule.newer_of_lt
    have kept : ∀ stream ∈ desk.streams, stream.cursor.Over (rule.Newer desk.state.nextId) :=
      fun stream member => (streams stream member).mono newer
    refine ⟨fun event member => (journal.isOver event member).mono newer, kept, ?_, ?_⟩
    · rintro env (⟨stream, member, entering⟩ | ⟨known, rfl⟩)
      · exact entering.over (kept stream member)
      · exact ⟨known.2.mono newer, Environment.over_empty _⟩
    · exact ⟨_, _, rule.instantiate_eq arguments desk.state, rule.nodup_parameters _,
        fun _ => Rule.mem_frame_of_mem_parameters, fun _ _ => Rule.get?_entry⟩

/-- The stretches of the road are stored, a variable is created and the rule is defined. -/
def prepared : Desk :=
  ((⟨(State.initial.insertAll Routes.stretch
      [[.symbol "a", .symbol "b"], [.symbol "b", .symbol "c"]]).2, []⟩ : Desk).move
    (.operate (.declare (.named "Destination" none)))).move (.operate (.define Routes.route))

/-- Then the goal is opened and two places are found. -/
def travelled : Desk :=
  ((prepared.move (.start (.evaluate Routes.onward .empty))).move (.pull 0 20)).move (.pull 0 20)

/-- The second place was found by a call inside the first one; a third call has new variables. -/
theorem instantiate_fresh_onward :
    travelled.Arises ∧ travelled.state.nextId = 11 ∧
      (∀ stream ∈ travelled.streams, stream.cursor.Over (Routes.route.Newer 11)) ∧
      ∃ made after,
        Routes.route.instantiate [.value (.symbol "b"), .var ⟨1⟩] travelled.state =
          (some made, after) ∧
        made.parameters.Nodup ∧ made.start.get? ⟨11⟩ = some (.symbol "b") := by
  have stored : Arises ⟨(State.initial.insertAll Routes.stretch
      [[.symbol "a", .symbol "b"], [.symbol "b", .symbol "c"]]).2, []⟩ := .insert .initial _ _
  have preparedArises : prepared.Arises := .move (.move stored trivial) (Routes.route_below _)
  have goalKnown : prepared.Knows (.start (.evaluate Routes.onward .empty)) :=
    ⟨Routes.onward_below.mono fun _ small => Nat.lt_trans small (by decide),
      Environment.over_empty _⟩
  have arises : travelled.Arises :=
    .move (.move (.move preparedArises goalKnown) trivial) trivial
  have reached : travelled.state.nextId = 11 := rfl
  obtain ⟨_, calls⟩ := instantiate_fresh arises
  obtain ⟨_, kept, _, made, after, entered, distinct, _, bound⟩ :=
    calls Routes.route [.value (.symbol "b"), .var ⟨1⟩]
  rw [reached] at kept
  refine ⟨arises, reached, kept, made, after, entered, distinct, (bound _ _).2 ?_⟩
  rw [Rule.instantiate_eq, reached] at entered
  cases entered
  decide

end Desk

end GroundLogic
