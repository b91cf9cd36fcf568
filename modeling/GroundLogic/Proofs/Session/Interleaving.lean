import GroundLogic.Proofs.Goal.Reach
import GroundLogic.Proofs.Session.Streams

/-!
# Interleaved streams

Any number of streams may be open at the same time.  They are pulled in any order, and in between
variables are created, goals validated, rules defined and asked, and further streams opened.  All of
them draw their variables from one counter, so the bodies that one stream builds depend on what the
others do; its items do not (`pulls_alone`).
-/

namespace GroundLogic

/-! ## A desk with open streams -/

/-- What may happen between two pulls, apart from opening streams. -/
inductive Operation where
  | declare (declaration : Declaration)
  | validate (goal : Goal)
  | define (rule : Rule)
  | expand (rule : Rule)
  | query (relation : Relation) (pattern : Pattern)
  | ask (fuel : Nat) (rule : Rule) (arguments : Pattern)
  | record (event : Event)

/-- The state after an operation; one that is refused may still have had effects. -/
def Operation.run (state : State) : Operation → State
  | .declare declaration => (state.declare declaration).2
  | .validate goal =>
      match goal.validate state with
      | .error _ => state
      | .ok validated => validated
  | .define rule => (rule.define state).2
  | .expand rule => (rule.expand state).2
  | .query relation pattern =>
      match state.query relation pattern with
      | .error _ => state
      | .ok (_, queried) => queried
  | .ask fuel rule arguments =>
      match rule.succeeds fuel arguments state with
      | .error _ => state
      | .ok (_, after) => after
  | .record event => state.record event

/-- An open stream: its source, the pulls so far with their outcomes, oldest first, and the
cursor. -/
structure OpenStream where
  source : Source
  pulled : List (Nat × Pull Item)
  cursor : Cursor

structure Desk where
  state : State
  streams : List OpenStream

/-- The next thing to do.  A pull may take a number of steps. -/
inductive Move where
  | operate (operation : Operation)
  | start (source : Source)
  | clone (index : Nat)
  | drop (index : Nat)
  | pull (index fuel : Nat)

namespace Desk

def move (desk : Desk) : Move → Desk
  | .operate operation => { desk with state := operation.run desk.state }
  | .start source =>
      match source.opening desk.state with
      | none => desk
      | some (cursor, after) => ⟨after, desk.streams ++ [⟨source, [], cursor⟩]⟩
  | .clone index =>
      match desk.streams[index]? with
      | none => desk
      | some stream => { desk with streams := desk.streams ++ [stream] }
  | .drop index => { desk with streams := desk.streams.eraseIdx index }
  | .pull index fuel =>
      match desk.streams[index]? with
      | none => desk
      | some stream =>
          match stream.cursor.pull fuel desk.state with
          | (outcome, rest, after) =>
              ⟨after, desk.streams.set index
                { stream with pulled := stream.pulled ++ [(fuel, outcome)], cursor := rest }⟩

/-- A stream can be opened once the variables of its source have been created. -/
def Allows (desk : Desk) : Move → Prop
  | .start source => source.Below desk.state.nextId
  | _ => True

/-- The desks that can be reached from one by moves in any order. -/
inductive Reachable (origin : Desk) : Desk → Prop
  | refl : Reachable origin origin
  | move {desk : Desk} {next : Move} (before : Reachable origin desk) (allowed : desk.Allows next) :
      Reachable origin (desk.move next)

end Desk

/-- The outcomes of pulls that may take these numbers of steps. -/
def Cursor.pulls : List Nat → Cursor → State → List (Pull Item) × Cursor × State
  | [], cursor, state => ([], cursor, state)
  | fuel :: fuels, cursor, state =>
      match cursor.pull fuel state with
      | (outcome, rest, after) =>
          match pulls fuels rest after with
          | (later, final) => (outcome :: later, final)

/-! ## Operations leave the facts alone -/

theorem Rule.precedes_first (fuel : Nat) (rule : Rule) (arguments : Pattern) (state : State) :
    state.Precedes (rule.first fuel arguments state).2 := by
  simp only [first, instantiate_eq]
  exact (rule.precedes_entered arguments state).trans (Search.precedes_pull fuel _ _)

theorem Rule.precedes_of_succeeds {fuel : Nat} {rule : Rule} {arguments : Pattern}
    {state after : State} {truth : Option Bool}
    (success : rule.succeeds fuel arguments state = .ok (truth, after)) :
    state.Precedes after := by
  have order := rule.precedes_first fuel arguments state
  simp only [succeeds] at success
  split at success
  · cases success
  · rcases solution : rule.first fuel arguments state with ⟨_ | _ | _, final⟩ <;>
      rw [solution] at success order <;> cases success <;> exact order

namespace Operation

theorem precedes_run (operation : Operation) (state : State) :
    state.Precedes (operation.run state) := by
  cases operation with
  | declare declaration => exact state.precedes_declare declaration
  | validate goal =>
      simp only [run]
      cases validated : goal.validate state with
      | error error => exact .refl state
      | ok after => exact Goal.precedes_of_validate validated
  | define rule => exact rule.precedes_define state
  | expand rule => exact Template.precedes_defineEach _ _ _ state
  | query relation pattern =>
      simp only [run]
      cases queried : state.query relation pattern with
      | error error => exact .refl state
      | ok result => exact State.precedes_of_query queried
  | ask fuel rule arguments =>
      simp only [run]
      cases asked : rule.succeeds fuel arguments state with
      | error error => exact .refl state
      | ok result => exact Rule.precedes_of_succeeds asked
  | record event => exact state.precedes_record event

end Operation

/-! ## What one stream shows -/

theorem Cursor.pulls_append (fuels : List Nat) (fuel : Nat) (cursor : Cursor) (state : State) :
    cursor.pulls (fuels ++ [fuel]) state =
      match cursor.pulls fuels state with
      | (outcomes, rest, after) =>
          (outcomes ++ [(rest.pull fuel after).1], (rest.pull fuel after).2) := by
  induction fuels generalizing cursor state with
  | nil => rfl
  | cons first others inductionHypothesis =>
      simp only [List.cons_append, pulls, inductionHypothesis]

theorem Cursor.precedes_pulls (fuels : List Nat) (cursor : Cursor) (state : State) :
    state.Precedes (cursor.pulls fuels state).2.2 := by
  induction fuels generalizing cursor state with
  | nil => exact .refl state
  | cons first others inductionHypothesis =>
      simp only [pulls]
      exact (cursor.precedes_pull first state).trans (inductionHypothesis _ _)

/-- Where no other arities are fixed than at the origin, the stream can be opened alone; and
wherever it is opened alone and pulled as often, it shows the same, and what is left of it is
alike. -/
structure OpenStream.Faithful (origin state : State) (stream : OpenStream) : Prop where
  opens : ∀ other : State, other.database.AritiesWithin origin.database →
    ∃ cursor opened, stream.source.opening other = some (cursor, opened)
  agrees : ∀ (other opened : State) (cursor : Cursor),
    other.database.SameFacts state.database → stream.source.Below other.nextId →
      stream.source.opening other = some (cursor, opened) →
        (cursor.pulls (stream.pulled.map Prod.fst) opened).1 = stream.pulled.map Prod.snd ∧
          ∃ kept, Cursor.Alike kept (cursor.pulls (stream.pulled.map Prod.fst) opened).2.2 state
            (cursor.pulls (stream.pulled.map Prod.fst) opened).2.1 stream.cursor

namespace OpenStream.Faithful

variable {origin state later after : State} {stream : OpenStream}

/-- Nothing that others do changes that. -/
theorem mono (faithful : stream.Faithful origin state) (order : state.Precedes later) :
    stream.Faithful origin later := by
  refine ⟨faithful.opens, ?_⟩
  intro other opened cursor same below opening
  obtain ⟨outcomes, kept, alike⟩ :=
    faithful.agrees other opened cursor (same.trans order.sameFacts.symm) below opening
  exact ⟨outcomes, kept, alike.mono order⟩

theorem of_opening {source : Source} {cursor : Cursor} (before : origin.Precedes state)
    (below : source.Below state.nextId)
    (opening : source.opening state = some (cursor, after)) :
    OpenStream.Faithful origin after ⟨source, [], cursor⟩ := by
  constructor
  · intro other within
    exact Source.exists_opening_of_within (within.trans before.aritiesWithin) opening
  · intro other opened otherCursor same otherBelow otherOpening
    have order := Source.precedes_of_opening opening
    exact ⟨rfl, _, Cursor.alike_opening (same.trans order.sameFacts.symm) otherBelow below
      otherOpening opening⟩

theorem pull (faithful : stream.Faithful origin state) (fuel : Nat) :
    OpenStream.Faithful origin (stream.cursor.pull fuel state).2.2
      { stream with
        pulled := stream.pulled ++ [(fuel, (stream.cursor.pull fuel state).1)]
        cursor := (stream.cursor.pull fuel state).2.1 } := by
  refine ⟨faithful.opens, ?_⟩
  intro other opened cursor same below opening
  have order := stream.cursor.precedes_pull fuel state
  have sameBefore := same.trans order.sameFacts.symm
  obtain ⟨outcomes, kept, alike⟩ := faithful.agrees other opened cursor sameBefore below opening
  have alone := (Source.precedes_of_opening opening).trans
    (cursor.precedes_pulls (stream.pulled.map Prod.fst) opened)
  obtain ⟨sameOutcome, alikeAfter⟩ :=
    Cursor.alike_pull fuel (alone.sameFacts.symm.trans sameBefore) alike
  simp only [List.map_append, List.map_cons, List.map_nil, Cursor.pulls_append]
  rw [outcomes, sameOutcome]
  exact ⟨rfl, kept, alikeAfter⟩

end OpenStream.Faithful

namespace Desk

/-- All open streams are faithful, and the facts are those of the beginning. -/
structure Faithful (origin : State) (desk : Desk) : Prop where
  order : origin.Precedes desk.state
  streams : ∀ stream ∈ desk.streams, stream.Faithful origin desk.state

theorem Faithful.move {origin : State} {desk : Desk} {next : Move}
    (faithful : desk.Faithful origin) (allowed : desk.Allows next) :
    (desk.move next).Faithful origin := by
  obtain ⟨order, streams⟩ := faithful
  cases next with
  | operate operation =>
      have further := operation.precedes_run desk.state
      exact ⟨order.trans further, fun stream member => (streams stream member).mono further⟩
  | start source =>
      simp only [Desk.move]
      cases opening : source.opening desk.state with
      | none => exact ⟨order, streams⟩
      | some result =>
          have further := Source.precedes_of_opening opening
          refine ⟨order.trans further, fun stream member => ?_⟩
          rcases List.mem_append.1 member with before | new
          · exact (streams stream before).mono further
          · rw [List.mem_singleton.1 new]
            exact .of_opening order allowed opening
  | clone index =>
      simp only [Desk.move]
      cases found : desk.streams[index]? with
      | none => exact ⟨order, streams⟩
      | some original =>
          refine ⟨order, fun stream member => ?_⟩
          rcases List.mem_append.1 member with before | new
          · exact streams stream before
          · rw [List.mem_singleton.1 new]
            exact streams original (List.mem_of_getElem? found)
  | drop index =>
      exact ⟨order, fun stream member => streams stream (List.mem_of_mem_eraseIdx member)⟩
  | pull index fuel =>
      simp only [Desk.move]
      cases found : desk.streams[index]? with
      | none => exact ⟨order, streams⟩
      | some pulled =>
          have further := pulled.cursor.precedes_pull fuel desk.state
          have faithful := (streams pulled (List.mem_of_getElem? found)).pull fuel
          refine ⟨order.trans further, fun stream member => ?_⟩
          rcases List.mem_or_eq_of_mem_set member with before | same
          · exact (streams stream before).mono further
          · rw [same]
            exact faithful

theorem faithful_of_reachable {origin : State} {desk : Desk}
    (reachable : Reachable ⟨origin, []⟩ desk) : desk.Faithful origin := by
  induction reachable with
  | refl => exact ⟨.refl origin, fun stream member => absurd member List.not_mem_nil⟩
  | move _ allowed inductionHypothesis => exact inductionHypothesis.move allowed

/-- However the pulls of several streams are interleaved with each other and with other operations,
each stream could have been opened alone, in any state with the facts and the arities of the
beginning that knows the variables of its source; pulled there as often, it shows the same. -/
theorem pulls_alone {origin : State} {desk : Desk} (reachable : Reachable ⟨origin, []⟩ desk)
    {stream : OpenStream} (member : stream ∈ desk.streams) {other : State}
    (same : other.database.SameFacts origin.database)
    (within : other.database.AritiesWithin origin.database)
    (below : stream.source.Below other.nextId) :
    ∃ cursor opened, stream.source.opening other = some (cursor, opened) ∧
      (cursor.pulls (stream.pulled.map Prod.fst) opened).1 = stream.pulled.map Prod.snd := by
  obtain ⟨order, streams⟩ := faithful_of_reachable reachable
  have faithful := streams stream member
  obtain ⟨cursor, opened, opening⟩ := faithful.opens other within
  obtain ⟨shown, _⟩ :=
    faithful.agrees other opened cursor (same.trans order.sameFacts) below opening
  exact ⟨cursor, opened, opening, shown⟩

/-- A goal and a query about the same road are opened. -/
def bothOpen : Desk :=
  ((⟨Routes.road, []⟩ : Desk).move (.start (.evaluate Routes.onward .empty))).move
    (.start (.iterate ⟨Routes.route, [.value (.symbol "a"), .wildcard]⟩))

/-- They are pulled in turn, and a variable is created in between. -/
def inTurn : Desk :=
  ((((bothOpen.move (.pull 0 20)).move (.pull 1 20)).move (.operate (.declare .generated))).move
    (.pull 1 20)).move (.pull 0 20)

theorem pulls_alone_onward :
    Reachable ⟨Routes.road, []⟩ inTurn ∧
    ((Cursor.solving (Routes.onward.start .empty Routes.road.database)).pulls [20, 20]
      Routes.road).1 =
        [.found (.solution (Routes.destination (.symbol "b"))),
          .found (.solution (Routes.destination (.symbol "c")))] := by
  have sourceBelow : (Source.evaluate Routes.onward .empty).Below Routes.road.nextId :=
    ⟨Routes.onward_below, Environment.over_empty _⟩
  have patternBelow : Pattern.Over (fun unknown => unknown.id < Routes.road.nextId)
      [.value (.symbol "a"), .wildcard] := by
    intro term member unknown equality
    subst equality
    simp at member
  have goalOpen : Reachable ⟨Routes.road, []⟩
      ((⟨Routes.road, []⟩ : Desk).move (.start (.evaluate Routes.onward .empty))) :=
    .move .refl sourceBelow
  have bothReachable : Reachable ⟨Routes.road, []⟩ bothOpen :=
    .move goalOpen ⟨Routes.route_below _, patternBelow⟩
  have reachable : Reachable ⟨Routes.road, []⟩ inTurn :=
    .move (.move (.move (.move (.move bothReachable trivial) trivial) trivial) trivial) trivial
  refine ⟨reachable, ?_⟩
  have first : inTurn.streams[0]? = some
      ⟨.evaluate Routes.onward .empty,
        [(20, .found (.solution (Routes.destination (.symbol "b")))),
          (20, .found (.solution (Routes.destination (.symbol "c"))))], _⟩ := rfl
  obtain ⟨cursor, opened, opening, shown⟩ :=
    pulls_alone reachable (List.mem_of_getElem? first) (.refl _) (.refl _) sourceBelow
  cases opening
  exact shown

end Desk

end GroundLogic
