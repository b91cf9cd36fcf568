import GroundLogic.Proofs.State.Growth

/-!
# What builds are charged for

A build has a cause: a rule is defined, a question is asked, an enumeration is begun or a call is
entered.  A list of charges says which of these happened between two states, in order, together
with the variables that the client created.  `before.Incurs charges after` says that the journal and
the counter agree with them: the builds noted in between are those that were charged, every other
build than that of a definition is followed by its instantiation, every accepted definition by its
own note, and no variable was created but by the client and for a build.

The builder of a rule may define rules itself, and each of those definitions is a charge as well
(`Rule.definitions`).
-/

namespace GroundLogic

/-- Something that makes variables: a creation by the client, or a cause of one build. -/
inductive Charge where
  | creation
  | definition (rule : Rule) (accepted : Bool)
  | question (rule : Rule)
  | enumeration (rule : Rule)
  | entry (rule : Rule)

namespace Charge

/-- The rule that is built. -/
def built? : Charge → Option Rule
  | .creation => none
  | .definition rule _ => some rule
  | .question rule => some rule
  | .enumeration rule => some rule
  | .entry rule => some rule

/-- The rule that is built to be evaluated. -/
def used? : Charge → Option Rule
  | .creation => none
  | .definition _ _ => none
  | .question rule => some rule
  | .enumeration rule => some rule
  | .entry rule => some rule

/-- The rule that is defined with success. -/
def accepted? : Charge → Option Rule
  | .definition rule true => some rule
  | _ => none

def isCreation : Charge → Bool
  | .creation => true
  | _ => false

theorem of_used? {charge : Charge} {rule : Rule} (use : charge.used? = some rule) :
    charge.built? = some rule ∧ charge.accepted? = none ∧ charge.isCreation = false := by
  cases charge <;> cases use <;> exact ⟨rfl, rfl, rfl⟩

end Charge

namespace Event

def built? : Event → Option Rule
  | .built rule _ => some rule
  | _ => none

def instantiated? : Event → Option Rule
  | .instantiated rule _ => some rule
  | _ => none

def defined? : Event → Option Rule
  | .defined rule _ => some rule
  | _ => none

end Event

/-- The number of variables that come with builds of these rules: the parameters of each, and those
that its builder creates. -/
def Rule.variablesOf : List Rule → Nat
  | [] => 0
  | rule :: rules => rule.arity + rule.template.locals.length + variablesOf rules

theorem Rule.variablesOf_append (early late : List Rule) :
    variablesOf (early ++ late) = variablesOf early + variablesOf late := by
  induction early with
  | nil => exact (Nat.zero_add _).symm
  | cons rule rules inductionHypothesis =>
      simp only [List.cons_append, variablesOf, inductionHypothesis, Nat.add_assoc]

/-- The events are what the charges have led to.  Builds stand in the order in which they were
charged.  The other events come when a build is done with, after those of the definitions inside
it. -/
structure Charge.Explain (charges : List Charge) (events : List Event) : Prop where
  built : events.filterMap Event.built? = charges.filterMap built?
  instantiated : (events.filterMap Event.instantiated?).Perm (charges.filterMap used?)
  defined : (events.filterMap Event.defined?).Perm (charges.filterMap accepted?)

/-- Between two states, what the journal notes is explained by the charges, and so are the variables
that were created. -/
def State.Incurs (before : State) (charges : List Charge) (after : State) : Prop :=
  ∃ events, after.journal.reverse = before.journal.reverse ++ events ∧
    Charge.Explain charges events ∧
    after.nextId = before.nextId + charges.countP Charge.isCreation +
      Rule.variablesOf (events.filterMap Event.built?)

namespace State

variable {before middle after : State} {charges early late : List Charge}

theorem Incurs.refl (state : State) : state.Incurs [] state :=
  ⟨[], (List.append_nil _).symm, ⟨rfl, .refl _, .refl _⟩, rfl⟩

theorem Incurs.trans (first : before.Incurs early middle) (second : middle.Incurs late after) :
    before.Incurs (early ++ late) after := by
  obtain ⟨earlyEvents, earlyJournal, earlyExplain, earlyCreated⟩ := first
  obtain ⟨lateEvents, lateJournal, lateExplain, lateCreated⟩ := second
  refine ⟨earlyEvents ++ lateEvents, ?_, ⟨?_, ?_, ?_⟩, ?_⟩
  · rw [lateJournal, earlyJournal, List.append_assoc]
  · rw [List.filterMap_append, List.filterMap_append, earlyExplain.built, lateExplain.built]
  · rw [List.filterMap_append, List.filterMap_append]
    exact earlyExplain.instantiated.append lateExplain.instantiated
  · rw [List.filterMap_append, List.filterMap_append]
    exact earlyExplain.defined.append lateExplain.defined
  · rw [lateCreated, earlyCreated, List.countP_append, List.filterMap_append,
      Rule.variablesOf_append]
    omega

/-- An event that is nothing to pay for. -/
theorem incurs_nil_of_event {event : Event} (journal : after.journal = event :: before.journal)
    (sameNext : after.nextId = before.nextId) (explain : Charge.Explain [] [event]) :
    before.Incurs [] after := by
  refine ⟨[event], ?_, explain, ?_⟩
  · rw [journal, List.reverse_cons]
  · rw [explain.built, sameNext]
    rfl

/-- What is stored does not cost anything. -/
theorem Stores.incurs (stores : before.Stores after) : before.Incurs [] after := by
  induction stores with
  | refl => exact .refl before
  | tail _ storing inductionHypothesis =>
      refine inductionHypothesis.trans ?_
      cases storing <;> exact incurs_nil_of_event rfl rfl ⟨rfl, .refl _, .refl _⟩

end State

/-! ## Builds -/

namespace Template

mutual

/-- The definitions that the builder of a rule makes during one build. -/
def definitions : Template → List Variable → List Rule → State → List Charge
  | ⟨key, name, arity, locals, inner, body⟩, captured, rules, state =>
      let rule : Rule := ⟨⟨key, name, arity, locals, inner, body⟩, captured, rules⟩
      definitionsOfEach inner (rule.scope state.nextId) (rule :: rules) (rule.opened state)

/-- The charges for defining rules one after the other: for each of them the definition itself, and
those that its builder makes. -/
def definitionsOfEach : List Template → List Variable → List Rule → State → List Charge
  | [], _, _, _ => []
  | template :: templates, scope, known, state =>
      let rule : Rule := ⟨template, scope, known⟩
      .definition rule (rule.define state).1.isOk ::
        (definitions template scope known state ++
          definitionsOfEach templates scope (rule :: known) (rule.define state).2)

end

end Template

/-- The definitions that the builder of a rule makes when it is run in a state. -/
def Rule.definitions (rule : Rule) (state : State) : List Charge :=
  rule.template.definitions rule.captured rule.rules state

namespace Rule

variable {rule : Rule} {before state : State} {inner : List Charge} {charge : Charge}

/-- As long as nothing comes of it, a build is charged like a definition that is refused. -/
theorem incurs_opened (rule : Rule) (state : State) :
    state.Incurs [.definition rule false] (rule.opened state) :=
  ⟨[.built rule state.nextId], List.reverse_cons, ⟨rfl, .refl _, .refl _⟩,
    rule.nextId_opened state⟩

/-- What is noted last belongs to what was charged first. -/
theorem perm_filterMap_close {Note Cause : Type} {noted? : Note → Option Rule}
    {caused? : Cause → Option Rule} {notes : List Note} {causes : List Cause} {last : Note}
    {first : Cause} (same : caused? first = noted? last)
    (others : (notes.filterMap noted?).Perm (causes.filterMap caused?)) :
    ((notes ++ [last]).filterMap noted?).Perm ((first :: causes).filterMap caused?) := by
  rw [List.filterMap_append]
  cases found : noted? last with
  | none =>
      rw [List.filterMap_cons_none found, List.filterMap_cons_none (same.trans found)]
      exact (List.append_nil _).symm ▸ others
  | some rule =>
      rw [List.filterMap_cons_some found, List.filterMap_cons_some (same.trans found)]
      exact (List.perm_append_singleton ..).trans (others.cons rule)

/-- A build gets its meaning by what is noted when it is done. -/
theorem incurs_record {event : Event} (built : before.Incurs (.definition rule false :: inner) state)
    (sameBuild : charge.built? = some rule) (free : charge.isCreation = false)
    (done : event.built? = none) (use : charge.used? = event.instantiated?)
    (definition : charge.accepted? = event.defined?) :
    before.Incurs (charge :: inner) (state.record event) := by
  obtain ⟨events, journal, explain, created⟩ := built
  have sameBuilds : (events ++ [event]).filterMap Event.built? = events.filterMap Event.built? := by
    rw [List.filterMap_append, List.filterMap_cons_none done]
    exact List.append_nil _
  refine ⟨events ++ [event], ?_, ⟨?_, ?_, ?_⟩, ?_⟩
  · rw [State.record, List.reverse_cons, journal, List.append_assoc]
  · rw [sameBuilds, explain.built, List.filterMap_cons_some sameBuild]
    rfl
  · exact perm_filterMap_close use explain.instantiated
  · exact perm_filterMap_close definition explain.defined
  · rw [State.nextId_record, created, sameBuilds, List.countP_cons, List.countP_cons, free]
    rfl

theorem incurs_define_of_build
    (built : before.Incurs (.definition rule false :: inner) (rule.build before).2) :
    before.Incurs (.definition rule (rule.define before).1.isOk :: inner)
      (rule.define before).2 := by
  rcases rule.define_cases before with ⟨validated, passed, defined⟩ | ⟨error, _, refused⟩
  · have accepted := built.trans (Goal.stores_of_validate passed).incurs
    rw [List.append_nil] at accepted
    rw [defined]
    exact incurs_record accepted rfl rfl rfl rfl rfl
  · rw [refused]
    exact built

end Rule

namespace Template

mutual

/-- The frame is opened, then the rules inside are defined. -/
theorem incurs_build :
    ∀ (template : Template) (captured : List Variable) (rules : List Rule) (state : State),
      state.Incurs (.definition ⟨template, captured, rules⟩ false ::
        template.definitions captured rules state) (template.build captured rules state)
  | ⟨key, name, arity, locals, inner, body⟩, captured, rules, state => by
      rw [build, definitions]
      exact (Rule.incurs_opened _ state).trans (incurs_defineEach inner _ _ _)

theorem incurs_defineEach :
    ∀ (templates : List Template) (scope : List Variable) (known : List Rule) (state : State),
      state.Incurs (definitionsOfEach templates scope known state)
        (defineEach templates scope known state)
  | [], _, _, state => by
      rw [definitionsOfEach, defineEach]
      exact .refl state
  | template :: templates, scope, known, state => by
      rw [definitionsOfEach, defineEach_cons]
      exact (Rule.incurs_define_of_build (incurs_build template scope known state)).trans
        (incurs_defineEach templates scope _ _)

end

end Template

namespace Rule

theorem incurs_build (rule : Rule) (state : State) :
    state.Incurs (.definition rule false :: rule.definitions state) (rule.build state).2 := by
  cases rule
  exact Template.incurs_build _ _ _ state

/-- Defining a rule is one build, whether it succeeds or not, with the definitions that its builder
makes. -/
theorem incurs_define (rule : Rule) (state : State) :
    state.Incurs (.definition rule (rule.define state).1.isOk :: rule.definitions state)
      (rule.define state).2 :=
  incurs_define_of_build (rule.incurs_build state)

/-- Entering a call is one build and one instantiation, whatever it is done for. -/
theorem incurs_entered {rule : Rule} {charge : Charge} (use : charge.used? = some rule)
    (arguments : Pattern) (state : State) :
    state.Incurs (charge :: rule.definitions state) (rule.entered arguments state) := by
  obtain ⟨sameBuild, noDefinition, noCreation⟩ := Charge.of_used? use
  exact incurs_record (rule.incurs_build state) sameBuild noCreation rfl use noDefinition

end Rule

end GroundLogic
