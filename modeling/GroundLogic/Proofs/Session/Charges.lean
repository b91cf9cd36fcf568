import GroundLogic.Proofs.Search.Charges
import GroundLogic.Proofs.Session.Freshness

/-!
# Every build has its cause

Along a run from the beginning, charges are added up: one for each variable that the client creates,
one for each definition, whether it succeeds or not, one for each question with the right number of
arguments, one for each enumeration that is begun, and one for each call that is pulled for the
first time.  Nothing else is charged.  The builds in the journal are those that were charged, and
the variables that exist are those that the client and the builds have created
(`Desk.accounted_of_runs`).
-/

namespace GroundLogic

/-! ## Questions -/

namespace Rule

/-- What it is charged to look for the first solution of a call. -/
def chargesOfFirst (fuel : Nat) (rule : Rule) (arguments : Pattern) (state : State) :
    List Charge :=
  .question rule :: (rule.definitions state ++
    (rule.bodySearch arguments state).chargesOver
      ((rule.bodySearch arguments state).statesOfPull fuel (rule.entered arguments state)))

/-- A question with a wrong number of arguments is free. -/
def chargesOfQuestion (fuel : Nat) (rule : Rule) (arguments : Pattern) (state : State) :
    List Charge :=
  if arguments.length = rule.arity then rule.chargesOfFirst fuel arguments state else []

/-- With open arguments a rule is not asked anything yet. -/
def chargesOfInvocation (fuel : Nat) (rule : Rule) (arguments : Pattern) (state : State) :
    List Charge :=
  if arguments.any Term.isOpen then [] else rule.chargesOfQuestion fuel arguments state

/-- The state after a rule was asked; nothing happens when it refuses the number of arguments. -/
def asked (fuel : Nat) (rule : Rule) (arguments : Pattern) (state : State) : State :=
  match rule.succeeds fuel arguments state with
  | .error _ => state
  | .ok (_, after) => after

/-- The state after a rule was called from outside. -/
def invoked (fuel : Nat) (rule : Rule) (arguments : Pattern) (state : State) : State :=
  match rule.invoke fuel arguments state with
  | .error _ => state
  | .ok (_, after) => after

theorem incurs_first (fuel : Nat) (rule : Rule) (arguments : Pattern) (state : State) :
    state.Incurs (rule.chargesOfFirst fuel arguments state)
      (rule.first fuel arguments state).2 := by
  simp only [first, instantiate_eq]
  exact (@incurs_entered rule (.question rule) rfl arguments state).trans
    (Search.incurs_pull fuel _ _)

theorem incurs_asked (fuel : Nat) (rule : Rule) (arguments : Pattern) (state : State) :
    state.Incurs (rule.chargesOfQuestion fuel arguments state)
      (rule.asked fuel arguments state) := by
  have incurs := rule.incurs_first fuel arguments state
  by_cases sameLength : arguments.length = rule.arity
  · rw [chargesOfQuestion, if_pos sameLength]
    simp only [asked, succeeds, checkArity, if_pos sameLength]
    rcases solution : rule.first fuel arguments state with ⟨_ | _ | _, final⟩ <;>
      rw [solution] at incurs <;> exact incurs
  · rw [chargesOfQuestion, if_neg sameLength]
    simp only [asked, succeeds, checkArity, if_neg sameLength]
    exact .refl state

theorem incurs_invoked (fuel : Nat) (rule : Rule) (arguments : Pattern) (state : State) :
    state.Incurs (rule.chargesOfInvocation fuel arguments state)
      (rule.invoked fuel arguments state) := by
  by_cases isOpen : arguments.any Term.isOpen = true
  · rw [chargesOfInvocation, if_pos isOpen]
    simp only [invoked, invoke, if_pos isOpen]
    cases rule.query arguments <;> exact .refl state
  · have incurs := rule.incurs_asked fuel arguments state
    rw [chargesOfInvocation, if_neg isOpen]
    simp only [invoked, invoke, if_neg isOpen]
    simp only [asked] at incurs
    cases outcome : rule.succeeds fuel arguments state <;> rw [outcome] at incurs <;> exact incurs

end Rule

/-! ## Moves -/

/-- What an operation is charged.  Validating a goal and looking into a relation are free. -/
def Operation.charges (state : State) : Operation → List Charge
  | .declare _ => [.creation]
  | .validate _ => []
  | .define rule => .definition rule (rule.define state).1.isOk :: rule.definitions state
  | .expand rule =>
      Template.definitionsOfEach rule.template.inner (rule.scope state.nextId)
        (rule :: rule.rules) state
  | .query _ _ => []
  | .ask fuel rule arguments => rule.chargesOfQuestion fuel arguments state
  | .record _ => []

/-- What it is charged to open a stream: an enumeration builds at once, nothing else does. -/
def Source.charges (state : State) : Source → List Charge
  | .evaluate _ _ => []
  | .solve _ => []
  | .iterate query => .enumeration query.rule :: query.rule.definitions state
  | .scan _ _ => []

/-- What a pull is charged. -/
def Cursor.charges (fuel : Nat) (state : State) : Cursor → List Charge
  | .matching _ => []
  | .solving search => search.chargesOver (search.statesOfPull fuel state)
  | .answering answers => answers.search.chargesOver (answers.search.statesOfPull fuel state)

theorem Operation.incurs_run {operation : Operation} {state : State}
    (below : operation.Below state.nextId) :
    state.Incurs (operation.charges state) (operation.run state) := by
  cases operation with
  | declare declaration =>
      refine ⟨[], (List.append_nil _).symm, ⟨rfl, .refl _, .refl _⟩, ?_⟩
      exact congrArg (· + 1) (Array.size_push ..)
  | validate goal =>
      simp only [run]
      cases validated : goal.validate state with
      | error error => exact .refl state
      | ok after => exact (Goal.stores_of_validate validated).incurs
  | define rule => exact rule.incurs_define state
  | expand rule => exact Template.incurs_defineEach _ _ _ state
  | query relation pattern =>
      simp only [run]
      cases queried : state.query relation pattern with
      | error error => exact .refl state
      | ok result => exact (State.stores_of_query queried).incurs
  | ask fuel rule arguments => exact rule.incurs_asked fuel arguments state
  | record event =>
      obtain ⟨rule, rfl⟩ := below
      exact State.incurs_nil_of_event rfl rfl ⟨rfl, .refl _, .refl _⟩

theorem Source.incurs_of_opening {source : Source} {cursor : Cursor} {state after : State}
    (opened : source.opening state = some (cursor, after)) :
    state.Incurs (source.charges state) after := by
  cases source with
  | evaluate goal env =>
      cases opened
      exact .refl state
  | solve goal => exact (Goal.stores_of_validate (validate_of_opening opened).1).incurs
  | iterate query =>
      simp only [opening, RuleQuery.enumerate, Rule.instantiate_eq] at opened
      cases opened
      exact Rule.incurs_entered rfl query.pattern state
  | scan relation pattern =>
      exact (State.stores_of_checkArity (checkArity_of_opening opened).1).1.incurs

theorem Cursor.incurs_pull (fuel : Nat) (cursor : Cursor) (state : State) :
    state.Incurs (cursor.charges fuel state) (cursor.pull fuel state).2.2 := by
  cases cursor with
  | matching found =>
      simp only [pull]
      rcases found.next with ⟨_ | _, rest⟩ <;> exact .refl state
  | solving search => exact search.incurs_pull fuel state
  | answering answers => exact answers.search.incurs_pull fuel state

namespace Desk

/-- What a move is charged.  Streams are cloned and dropped for nothing. -/
def charges (desk : Desk) : Move → List Charge
  | .operate operation => operation.charges desk.state
  | .start source =>
      match source.opening desk.state with
      | none => []
      | some _ => source.charges desk.state
  | .clone _ => []
  | .drop _ => []
  | .pull index fuel =>
      match desk.streams[index]? with
      | none => []
      | some stream => stream.cursor.charges fuel desk.state

/-- The desks that come about from the initial state by insertions, moves and calls from outside, in
any order, with all that was charged on the way. -/
inductive Runs : List Charge → Desk → Prop
  | initial : Runs [] ⟨.initial, []⟩
  | insert {charges : List Charge} {desk : Desk} (before : Runs charges desk)
      (relation : Relation) (tuples : List Tuple) :
      Runs charges { desk with state := (desk.state.insertAll relation tuples).2 }
  | move {charges : List Charge} {desk : Desk} {next : Move} (before : Runs charges desk)
      (known : desk.Knows next) : Runs (charges ++ desk.charges next) (desk.move next)
  | invoke {charges : List Charge} {desk : Desk} (before : Runs charges desk) (fuel : Nat)
      (rule : Rule) (arguments : Pattern) :
      Runs (charges ++ rule.chargesOfInvocation fuel arguments desk.state)
        { desk with state := rule.invoked fuel arguments desk.state }

variable {desk : Desk} {next : Move} {charges : List Charge}

theorem incurs_move (known : desk.Knows next) :
    desk.state.Incurs (desk.charges next) (desk.move next).state := by
  cases next with
  | operate operation => exact Operation.incurs_run known
  | start source =>
      simp only [move, Desk.charges]
      cases opening : source.opening desk.state with
      | none => exact .refl desk.state
      | some result => exact Source.incurs_of_opening opening
  | clone index =>
      simp only [move]
      cases desk.streams[index]? <;> exact .refl desk.state
  | drop index => exact .refl desk.state
  | pull index fuel =>
      simp only [move, Desk.charges]
      cases desk.streams[index]? with
      | none => exact .refl desk.state
      | some stream => exact stream.cursor.incurs_pull fuel desk.state

theorem incurs_of_runs (runs : Runs charges desk) : State.initial.Incurs charges desk.state := by
  induction runs with
  | initial => exact .refl .initial
  | insert _ relation tuples inductionHypothesis =>
      have incurs := inductionHypothesis.trans (State.stores_insertAll _ relation tuples).incurs
      rw [List.append_nil] at incurs
      exact incurs
  | move _ known inductionHypothesis => exact inductionHypothesis.trans (incurs_move known)
  | invoke _ fuel rule arguments inductionHypothesis =>
      exact inductionHypothesis.trans (rule.incurs_invoked fuel arguments _)

end Desk

/-! ## Accounts -/

/-- The rules whose builders were run, in this order. -/
def State.builds (state : State) : List Rule :=
  state.journal.reverse.filterMap Event.built?

/-- The state agrees with all that was charged.  The builders were run for the charges.  A variable
exists for each creation, for each parameter of a rule that was built and for each variable that its
builder creates.  Uses have left one instantiation each, accepted definitions one note each, and
nothing else has left any. -/
structure State.Accounted (charges : List Charge) (state : State) : Prop where
  builds : state.builds = charges.filterMap Charge.built?
  created : state.declarations.size = charges.countP Charge.isCreation +
    Rule.variablesOf state.builds
  uses : (state.journal.filterMap Event.instantiated?).Perm (charges.filterMap Charge.used?)
  definitions : (state.journal.filterMap Event.defined?).Perm
    (charges.filterMap Charge.accepted?)

theorem State.Incurs.accounted {charges : List Charge} {state : State}
    (incurs : State.initial.Incurs charges state) : state.Accounted charges := by
  obtain ⟨events, journal, explain, created⟩ := incurs
  have sameEvents : state.journal.reverse = events := journal
  subst sameEvents
  refine ⟨explain.built, ?_, ?_, ?_⟩
  · simp only [State.nextId, State.initial, Array.size_empty] at created
    rw [State.builds]
    omega
  · exact (state.journal.reverse_perm.filterMap _).symm.trans explain.instantiated
  · exact (state.journal.reverse_perm.filterMap _).symm.trans explain.defined

namespace Desk

/-- At every point of every run, the state agrees with what was charged on the way.  A step is
charged for the call that it enters, if it enters one, and for nothing else.  The stream of an
evaluated call is charged for one build of its rule when it is pulled for the first time, however
often it is pulled and wherever it comes to; before, it is charged nothing, and afterwards only what
the search of that body is charged. -/
theorem accounted_of_runs {desk : Desk} {charges : List Charge} (runs : Runs charges desk) :
    desk.state.Accounted charges ∧
    (∀ (search : Search) (state : State),
      (∃ rule arguments env, search.Entering rule arguments env ∧
        search.charges state = .entry rule :: rule.definitions state) ∨
      ((∀ rule arguments env, ¬ search.Entering rule arguments env) ∧
        search.charges state = [])) ∧
    ∀ (rule : Rule) (arguments : Pattern) (env : Environment) (database : Database)
      (pulls : List (Nat × State)),
      ((∀ pull ∈ pulls, pull.1 = 0) →
        (Goal.start (.call rule arguments) env database).chargesOfPulls pulls = []) ∧
      ((∃ pull ∈ pulls, pull.1 ≠ 0) →
        ∃ first states, (Goal.start (.call rule arguments) env database).chargesOfPulls pulls =
          .entry rule :: (rule.definitions first ++
            (rule.bodySearch (Pattern.narrow env arguments) first).chargesOver states)) :=
  ⟨(incurs_of_runs runs).accounted, Search.charges_cases, fun rule arguments env _ =>
    Search.chargesOfPulls_call rule (Pattern.narrow env arguments) env⟩

/-- The variable, the definition and the two calls, one inside the other, make ten variables. -/
theorem accounted_of_runs_onward :
    Runs [.creation, .definition Routes.route true, .entry Routes.route, .entry Routes.route]
        travelled ∧
      travelled.state.declarations.size = 10 ∧
      travelled.state.builds = [Routes.route, Routes.route, Routes.route] := by
  have stored : Runs [] ⟨(State.initial.insertAll Routes.stretch
      [[.symbol "a", .symbol "b"], [.symbol "b", .symbol "c"]]).2, []⟩ := .insert .initial _ _
  have declared := @Runs.move _ _ (.operate (.declare (.named "Destination" none))) stored trivial
  have preparedRuns : Runs [.creation, .definition Routes.route true] prepared :=
    @Runs.move _ _ (.operate (.define Routes.route)) declared (Routes.route_below _)
  have goalKnown : prepared.Knows (.start (.evaluate Routes.onward .empty)) :=
    ⟨Routes.onward_below.mono fun _ small => Nat.lt_trans small (by decide),
      Environment.over_empty _⟩
  have opened := @Runs.move _ _ (.start (.evaluate Routes.onward .empty)) preparedRuns goalKnown
  have pulled := @Runs.move _ _ (.pull 0 20) opened trivial
  have runs : Runs [.creation, .definition Routes.route true, .entry Routes.route,
      .entry Routes.route] travelled := @Runs.move _ _ (.pull 0 20) pulled trivial
  obtain ⟨accounted, _⟩ := accounted_of_runs runs
  refine ⟨runs, ?_, accounted.builds⟩
  rw [accounted.created, accounted.builds]
  rfl

end Desk

end GroundLogic
