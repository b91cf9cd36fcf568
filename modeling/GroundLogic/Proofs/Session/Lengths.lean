import GroundLogic.Proofs.Search.Lengths
import GroundLogic.Proofs.Session.Growth

/-!
# Lengths in open streams

Lengths are checked where something enters a run: a goal when it is validated, a rule when it is
defined, a query when it is put, a scan when it is opened.  Whatever is done afterwards, arities
stay and rules give the same bodies up to their variables.  So what an open stream has come to has
the right lengths throughout, however deep in the bodies of rules, and pulling it changes no table
(`streams_fit`).
-/

namespace GroundLogic

/-- A scan goes on after the tuple that it has found. -/
theorem Matches.subset_of_nextIn (pattern : Pattern) (tuples : List Tuple) :
    (nextIn pattern tuples).2 ⊆ tuples := by
  induction tuples with
  | nil => exact List.Subset.refl _
  | cons tuple rest inductionHypothesis =>
      simp only [nextIn]
      split
      · exact List.subset_cons_self tuple rest
      · exact List.Subset.trans inductionHypothesis (List.subset_cons_self tuple rest)

/-! ## Checks at the entry -/

namespace Desk

variable {desk : Desk} {goal : Goal} {rule : Rule}

/-- The goal has been accepted by a validation in the run that led to the desk. -/
inductive HasValidated (goal : Goal) : Desk → Prop
  | here {desk : Desk} {after : State} (arises : desk.Arises)
      (passed : goal.validate desk.state = .ok after) :
      HasValidated goal (desk.move (.operate (.validate goal)))
  | insert {desk : Desk} (before : HasValidated goal desk) (relation : Relation)
      (tuples : List Tuple) :
      HasValidated goal { desk with state := (desk.state.insertAll relation tuples).2 }
  | move {desk : Desk} {next : Move} (before : HasValidated goal desk)
      (known : desk.Knows next) : HasValidated goal (desk.move next)

/-- The rule, or one that is alike, has been defined in the run that led to the desk. -/
def HasDefined (desk : Desk) (rule : Rule) : Prop :=
  ∃ accepted body, .defined accepted body ∈ desk.state.journal ∧ accepted.Alike rule

theorem HasValidated.suits (validated : desk.HasValidated goal) :
    goal.Suits desk.state.database := by
  induction validated with
  | @here desk after _ passed =>
      simp only [Desk.move, Operation.run, passed]
      exact Goal.suits_of_validate passed
  | insert _ relation tuples inductionHypothesis =>
      exact inductionHypothesis.mono (State.grows_insertAll _ relation tuples).aritiesWithin
  | move _ known inductionHypothesis =>
      exact inductionHypothesis.mono (grows_move known).aritiesWithin

theorem HasDefined.settled (defined : desk.HasDefined rule) (arises : desk.Arises) :
    rule.Settled desk.state.database := by
  obtain ⟨accepted, body, noted, alike⟩ := defined
  obtain ⟨start, made, success, further⟩ := exists_define_of_arises arises noted
  exact (Rule.settled_of_define success alike).mono further.aritiesWithin

end Desk

namespace Source

/-- What is checked before a stream is opened.  To solve a goal and to scan a relation are checked
by the opening itself. -/
def Checked (desk : Desk) : Source → Prop
  | .evaluate goal _ => desk.HasValidated goal
  | .solve _ => True
  | .iterate query => query.rule.query query.pattern = .ok query
  | .scan _ _ => True

/-- The goal that is searched; a scan needs none. -/
def goal? : Source → Option Goal
  | .evaluate goal _ => some goal
  | .solve goal => some goal
  | .iterate query => some (.call query.rule query.pattern)
  | .scan _ _ => none

/-- The rules that may be called while the stream is pulled. -/
def Reaches (source : Source) (rule : Rule) : Prop :=
  ∃ goal ∈ source.goal?, goal.Reaches rule

end Source

/-! ## Cursors -/

namespace Cursor

variable {source : Source} {cursor : Cursor} {state later after : State}

/-- What an open stream has come to stems from its source. -/
inductive Stems (state : State) : Source → Cursor → Prop
  | evaluate {goal : Goal} {env : Environment} {search : Search}
      (within : search.Within goal state.database) :
      Stems state (.evaluate goal env) (.solving search)
  | solve {goal : Goal} {search : Search} (within : search.Within goal state.database)
      (suits : goal.Suits state.database) : Stems state (.solve goal) (.solving search)
  | iterate {query : RuleQuery} {parameters : List Variable} {search : Search}
      (within : search.Within (.call query.rule query.pattern) state.database)
      (length : parameters.length = query.rule.arity) :
      Stems state (.iterate query) (.answering ⟨query.pattern, parameters, search⟩)
  | scan {relation : Relation} {pattern : Pattern} {remaining : List Tuple}
      (fixed : (state.table relation).arity = some pattern.length)
      (stored : remaining ⊆ (state.table relation).tuples) :
      Stems state (.scan relation pattern) (.matching ⟨relation, pattern, remaining⟩)

theorem Stems.mono (stems : Stems state source cursor) (grows : state.Grows later) :
    Stems later source cursor := by
  cases stems with
  | evaluate within => exact .evaluate (within.mono grows.subset)
  | solve within suits => exact .solve (within.mono grows.subset) (suits.mono grows.aritiesWithin)
  | iterate within length => exact .iterate (within.mono grows.subset) length
  | @scan relation pattern remaining fixed stored =>
      exact .scan (grows.aritiesWithin relation pattern.length fixed)
        (List.Subset.trans stored (grows.subset relation))

theorem stems_of_opening (below : source.Below state.nextId)
    (opened : source.opening state = some (cursor, after)) : Stems after source cursor := by
  cases source with
  | evaluate goal env =>
      cases opened
      exact .evaluate (Search.within_start .whole env _)
  | solve goal =>
      obtain ⟨validated, rfl⟩ := Source.validate_of_opening opened
      exact .solve (Search.within_start .whole .empty _) (Goal.suits_of_validate validated)
  | iterate query =>
      simp only [Source.opening, RuleQuery.enumerate, Rule.instantiate_eq] at opened
      cases opened
      exact .iterate (Search.within_start (.body .whole below.1) _ _)
        (query.rule.length_parameters _)
  | scan relation pattern =>
      obtain ⟨checked, rfl⟩ := Source.checkArity_of_opening opened
      exact .scan (State.stores_of_checkArity checked).2 (List.Subset.refl _)

theorem stems_pull (fuel : Nat) (stems : Stems state source cursor)
    (below : cursor.Below state.nextId) :
    Stems (cursor.pull fuel state).2.2 source (cursor.pull fuel state).2.1 := by
  refine Stems.mono ?_ (cursor.grows_pull fuel state)
  cases stems with
  | evaluate within => exact .evaluate (Search.within_pull fuel within (.refl _) below)
  | solve within suits => exact .solve (Search.within_pull fuel within (.refl _) below) suits
  | iterate within length =>
      exact .iterate (Search.within_pull fuel within (.refl _) below.1) length
  | @scan relation pattern remaining fixed stored =>
      have smaller := Matches.subset_of_nextIn pattern remaining
      simp only [pull, Matches.next]
      rcases advanced : Matches.nextIn pattern remaining with ⟨_ | _, rest⟩ <;>
        rw [advanced] at smaller <;> exact .scan fixed (List.Subset.trans smaller stored)

/-- All lengths are right.  For searches this is said there; an answer to a query has a value or a
term for each position of the pattern; and a scan looks only at tuples of the length of its
pattern. -/
inductive Fits (state : State) : Source → Cursor → Prop
  | evaluate {goal : Goal} {env : Environment} {search : Search}
      (fits : search.Fits goal state.database) :
      Fits state (.evaluate goal env) (.solving search)
  | solve {goal : Goal} {search : Search} (fits : search.Fits goal state.database) :
      Fits state (.solve goal) (.solving search)
  | iterate {query : RuleQuery} {parameters : List Variable} {search : Search}
      (fits : search.Fits (.call query.rule query.pattern) state.database)
      (length : query.pattern.length = parameters.length) :
      Fits state (.iterate query) (.answering ⟨query.pattern, parameters, search⟩)
  | scan {relation : Relation} {pattern : Pattern} {remaining : List Tuple}
      (fixed : (state.table relation).arity = some pattern.length)
      (stored : remaining ⊆ (state.table relation).tuples)
      (lengths : ∀ tuple ∈ (state.table relation).tuples, tuple.length = pattern.length) :
      Fits state (.scan relation pattern) (.matching ⟨relation, pattern, remaining⟩)

/-- Where the goal suits and the rules are settled, what stems from the source has the right
lengths. -/
theorem Stems.fits (stems : Stems state source cursor)
    (suits : ∀ goal ∈ source.goal?, goal.Suits state.database)
    (settled : ∀ rule, source.Reaches rule → rule.Settled state.database)
    (sized : ∀ relation, ∀ tuple ∈ (state.table relation).tuples,
      (state.table relation).arity = some tuple.length) : Fits state source cursor := by
  have own : ∀ goal ∈ source.goal?, ∀ rule, goal.Reaches rule → rule.Settled state.database :=
    fun goal searched rule reaches => settled rule ⟨goal, searched, reaches⟩
  cases stems with
  | evaluate within => exact .evaluate (within.fits (suits _ rfl) (own _ rfl) sized)
  | solve within _ => exact .solve (within.fits (suits _ rfl) (own _ rfl) sized)
  | @iterate query parameters search within length =>
      have whole : query.pattern.length = query.rule.arity := suits _ rfl
      exact .iterate (within.fits (suits _ rfl) (own _ rfl) sized) (whole.trans length.symm)
  | @scan relation pattern remaining fixed stored =>
      refine .scan fixed stored fun tuple member => ?_
      exact (Option.some.inj (fixed.symm.trans (sized relation tuple member))).symm

theorem Stems.sameTables_pull (stems : Stems state source cursor)
    (below : cursor.Below state.nextId)
    (settled : ∀ rule, source.Reaches rule → rule.Settled state.database) (fuel : Nat) :
    state.SameTables (cursor.pull fuel state).2.2 := by
  have own : ∀ goal ∈ source.goal?, ∀ rule, goal.Reaches rule → rule.Settled state.database :=
    fun goal searched rule reaches => settled rule ⟨goal, searched, reaches⟩
  cases stems with
  | evaluate within => exact Search.sameTables_pull fuel within (.refl _) below (own _ rfl)
  | solve within _ => exact Search.sameTables_pull fuel within (.refl _) below (own _ rfl)
  | iterate within _ => exact Search.sameTables_pull fuel within (.refl _) below.1 (own _ rfl)
  | @scan relation pattern remaining _ _ =>
      simp only [pull]
      rcases Matches.next ⟨relation, pattern, remaining⟩ with ⟨_ | _, rest⟩ <;> exact .refl state

end Cursor

/-- What is searched suits, by a check before the stream was opened or by its opening. -/
theorem Source.Checked.suits {desk : Desk} {source : Source} {cursor : Cursor}
    (checked : source.Checked desk) (stems : Cursor.Stems desk.state source cursor) :
    ∀ goal ∈ source.goal?, goal.Suits desk.state.database := by
  intro goal searched
  cases stems with
  | evaluate _ =>
      cases searched
      exact Desk.HasValidated.suits checked
  | solve _ suits =>
      cases searched
      exact suits
  | @iterate query _ _ _ _ =>
      cases searched
      by_cases length : query.pattern.length = query.rule.arity
      · exact length
      · simp [Checked, Rule.query, Rule.checkArity, length] at checked
  | scan _ _ => cases searched

/-! ## Runs from the beginning -/

namespace Desk

variable {desk : Desk} {stream : OpenStream}

theorem stems_of_arises (arises : desk.Arises) :
    ∀ stream ∈ desk.streams, Cursor.Stems desk.state stream.source stream.cursor := by
  induction arises with
  | initial => exact fun stream member => absurd member List.not_mem_nil
  | insert _ relation tuples inductionHypothesis =>
      exact fun stream member =>
        (inductionHypothesis stream member).mono (State.grows_insertAll _ relation tuples)
  | @move desk next before known inductionHypothesis =>
      intro stream member
      rcases stream_cases member with old | ⟨opens, opened⟩ |
        ⟨index, fuel, _, pulled, old, sameSource, sameCursor, sameState⟩
      · exact (inductionHypothesis stream old).mono (grows_move known)
      · rw [opens] at known
        exact Cursor.stems_of_opening known opened
      · rw [sameSource, sameCursor, sameState]
        exact Cursor.stems_pull fuel (inductionHypothesis pulled old)
          ((dated_of_arises before).streams pulled old)

/-- In every run from the beginning, the cursor of an open stream has the right lengths at every
fact and every call that it has come to, in the goal itself and in the bodies of rules, if its
source was checked and the rules that it reaches were defined; whatever has been done since the
checks.  So does all that it may still come to.  Neither a pull nor a call of one of these rules
changes a table. -/
theorem streams_fit (arises : desk.Arises) (member : stream ∈ desk.streams)
    (checked : stream.source.Checked desk)
    (defined : ∀ rule, stream.source.Reaches rule → desk.HasDefined rule) :
    Cursor.Fits desk.state stream.source stream.cursor ∧
    (∀ goal ∈ stream.source.goal?, ∀ part, goal.Meets part → part.Suits desk.state.database) ∧
    (∀ fuel, desk.state.SameTables (stream.cursor.pull fuel desk.state).2.2) ∧
    ∀ rule arguments, stream.source.Reaches rule →
      desk.state.SameTables (rule.instantiate arguments desk.state).2 := by
  have stems := stems_of_arises arises stream member
  have suits := checked.suits stems
  have settled : ∀ rule, stream.source.Reaches rule → rule.Settled desk.state.database :=
    fun rule reaches => (defined rule reaches).settled arises
  refine ⟨?_, fun goal searched part meets => ?_, ?_, fun rule arguments reaches => ?_⟩
  · exact stems.fits suits settled fun relation => (keeps_of_arises arises relation).sized
  · exact meets.suits (suits goal searched) fun rule reaches =>
      settled rule ⟨goal, searched, reaches⟩
  · exact stems.sameTables_pull ((dated_of_arises arises).streams stream member) settled
  · rw [Rule.instantiate_eq]
    exact (settled rule reaches).sameTables_entered arguments

/-- The goal is validated when the rule has been defined, and then one more stretch is stored. -/
def prolonged : Desk :=
  { prepared.move (.operate (.validate Routes.onward)) with
    state :=
      ((prepared.move (.operate (.validate Routes.onward))).state.insertAll Routes.stretch
        [[.symbol "c", .symbol "d"]]).2 }

/-- Then the goal is opened, and the second place is found by a call inside the first one. -/
def explored : Desk :=
  ((prolonged.move (.start (.evaluate Routes.onward .empty))).move (.pull 0 20)).move (.pull 0 20)

theorem prepared_arises : prepared.Arises :=
  .move (.move (.insert .initial _ _) trivial) (Routes.route_below _)

theorem streams_fit_onward :
    explored.Arises ∧
    explored.state.table Routes.stretch =
      ⟨some 2, [[.symbol "a", .symbol "b"], [.symbol "b", .symbol "c"],
        [.symbol "c", .symbol "d"]]⟩ ∧
    ∃ stream ∈ explored.streams, stream.source = .evaluate Routes.onward .empty ∧
      stream.source.Checked explored ∧
      (∀ rule, stream.source.Reaches rule → explored.HasDefined rule) ∧
      Cursor.Fits explored.state stream.source stream.cursor ∧
      (∀ fuel, explored.state.SameTables (stream.cursor.pull fuel explored.state).2.2) ∧
      ∀ arguments,
        explored.state.SameTables (Routes.route.instantiate arguments explored.state).2 := by
  have goalKnown : prolonged.Knows (.start (.evaluate Routes.onward .empty)) :=
    ⟨Routes.onward_below.mono fun _ small => Nat.lt_trans small (by decide),
      Environment.over_empty _⟩
  have validatedArises : (prepared.move (.operate (.validate Routes.onward))).Arises :=
    .move prepared_arises trivial
  have arises : explored.Arises :=
    .move (.move (.move (.insert validatedArises _ _) goalKnown) trivial) trivial
  have validated : explored.HasValidated Routes.onward :=
    .move (.move (.move (.insert (.here prepared_arises rfl) _ _) goalKnown) trivial) trivial
  have opened : explored.streams[0]? = some ⟨.evaluate Routes.onward .empty, _, _⟩ := rfl
  have defined : ∀ rule, (Source.evaluate Routes.onward .empty).Reaches rule →
      explored.HasDefined rule := by
    rintro rule ⟨goal, searched, reaches⟩
    cases searched
    rw [Routes.eq_route_of_reaches reaches]
    have noted : explored.state.journal[5]? = some (.defined Routes.route (Routes.route.body 2)) :=
      rfl
    exact ⟨Routes.route, _, List.mem_of_getElem? noted, .refl _⟩
  have member := List.mem_of_getElem? opened
  obtain ⟨fits, _, pulls, calls⟩ := streams_fit arises member validated defined
  exact ⟨arises, rfl, _, member, rfl, validated, defined, fits, pulls, fun arguments =>
    calls Routes.route arguments ⟨_, rfl, .callee (List.mem_cons_self ..)⟩⟩

end Desk

end GroundLogic
