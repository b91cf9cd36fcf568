import GroundLogic.Goal.Visit
import GroundLogic.Proofs.Search.Steps

/-!
# Lazy search follows eager evaluation

An eager visit and a lazy search go through the same answers in the same states.  The visit hands an
answer to its continuation where the search passes it on to whatever it stands in; so the proof
follows a visit with any continuation through a search that stands in any frame, as long as the
continuation and the frame belong together (`Continuation.Follows`).
-/

namespace GroundLogic

/-- The visit goes on from what was found before by going through the steps of the search from the
state.  Unless it is cut short, it comes to a place as described. -/
def Visit.Covers (visit : Visit) (search : Search) (state : State)
    (before : List (Environment × State)) (place : Search → Prop) : Prop :=
  ∃ trace rest final, visit.found = trace.reverse ++ before ∧
    search.Steps state trace rest final ∧
    (visit.cut = false → place rest ∧ final = visit.state)

/-- A continuation does with an answer what the surroundings of a search do when the search takes a
step: `frame inner whole` says that the inner search is where the whole one goes on. -/
structure Continuation.Follows (resume : Continuation) (frame : Search → Search → Prop) :
    Prop where
  silently : ∀ {inner whole rest : Search} {state after : State}, frame inner whole →
    inner.step state = (.silent rest, after) →
      ∃ next, whole.Steps state [] next after ∧ frame rest next
  answering : ∀ {inner whole rest : Search} {state after : State} {answer : Environment},
    frame inner whole → inner.step state = (.answer answer rest, after) →
      ∀ visit : Visit, visit.cut = false → visit.state = after →
        (resume answer visit).Covers whole state visit.found (frame rest)
  cut : ∀ (answer : Environment) (visit : Visit), visit.cut = true → resume answer visit = visit

namespace Visit.Covers

variable {visit later : Visit} {search rest : Search} {state after : State}
  {before : List (Environment × State)} {place target : Search → Prop}

/-- First one visit, then, unless it was cut short, another one from where it came to. -/
theorem bind (first : visit.Covers search state before place)
    (short : visit.cut = true → later = visit)
    (second : visit.cut = false → ∀ rest, place rest →
      later.Covers rest visit.state visit.found target) :
    later.Covers search state before target := by
  obtain ⟨trace, rest, final, found, steps, reached⟩ := first
  cases cut : visit.cut with
  | true =>
      rw [short cut]
      refine ⟨trace, rest, final, found, steps, fun uncut => ?_⟩
      rw [cut] at uncut
      cases uncut
  | false =>
      obtain ⟨there, rfl⟩ := reached cut
      obtain ⟨laterTrace, last, final, laterFound, laterSteps, laterReached⟩ :=
        second cut rest there
      refine ⟨trace ++ laterTrace, last, final, ?_, steps.trans laterSteps, laterReached⟩
      rw [laterFound, found, List.reverse_append, List.append_assoc]

theorem of_silent (steps : search.Steps state [] rest after)
    (covers : visit.Covers rest after before place) : visit.Covers search state before place := by
  obtain ⟨trace, last, final, found, later, reached⟩ := covers
  exact ⟨trace, last, final, found, steps.trans later, reached⟩

theorem mono (covers : visit.Covers search state before place)
    (weaker : ∀ rest, place rest → target rest) : visit.Covers search state before target := by
  obtain ⟨trace, last, final, found, steps, reached⟩ := covers
  exact ⟨trace, last, final, found, steps,
    fun uncut => ⟨weaker last (reached uncut).1, (reached uncut).2⟩⟩

theorem refl (visit : Visit) (here : place search) :
    visit.Covers search visit.state visit.found place :=
  ⟨[], search, visit.state, rfl, .refl _ _, fun _ => ⟨here, rfl⟩⟩

end Visit.Covers

namespace Continuation.Follows

variable {resume : Continuation} {frame : Search → Search → Prop}

/-! ## Frames -/

theorem alternative (follows : resume.Follows frame) (right : Goal) (env : Environment) :
    resume.Follows fun inner whole => frame (.alternative inner right env) whole where
  silently := fun framed stepped =>
    follows.silently framed (by simp only [Search.step, stepped])
  answering := fun framed stepped =>
    follows.answering framed (by simp only [Search.step, stepped])
  cut := follows.cut

theorem join (follows : resume.Follows frame) (left : Search) (right : Goal) :
    resume.Follows fun inner whole => frame (.join inner left right) whole where
  silently := fun framed stepped =>
    follows.silently framed (by simp only [Search.step, stepped])
  answering := fun framed stepped =>
    follows.answering framed (by simp only [Search.step, stepped])
  cut := follows.cut

theorem returning (follows : resume.Follows frame) (arguments : Pattern)
    (parameters : List Variable) (env : Environment) :
    Follows
      (fun answer visit =>
        match Pattern.bindBack answer arguments parameters env with
        | some extended => resume extended visit
        | none => visit)
      (fun inner whole => frame (.returning inner arguments parameters env) whole) where
  silently := fun framed stepped =>
    follows.silently framed (by simp only [Search.step, stepped])
  answering := by
    intro inner whole rest state after answer framed stepped visit uncut sameState
    cases returned : Pattern.bindBack answer arguments parameters env with
    | some extended =>
        exact follows.answering framed (Search.step_returning_of_some stepped returned) visit
          uncut sameState
    | none =>
        obtain ⟨next, steps, framedNext⟩ :=
          follows.silently framed (Search.step_returning_of_none stepped returned)
        subst sameState
        exact .of_silent steps (.refl visit framedNext)
  cut := by
    intro answer visit short
    cases Pattern.bindBack answer arguments parameters env with
    | some extended => exact follows.cut extended visit short
    | none => rfl

end Continuation.Follows

/-! ## Goals -/

namespace Goal

/-- In every frame, the visitor goes through the search to its end; it does nothing once the visit
was cut short. -/
structure Covered (opening : Environment → Database → Search)
    (visitor : Environment → Continuation → Visit → Visit) : Prop where
  covers : ∀ (resume : Continuation) (frame : Search → Search → Prop), resume.Follows frame →
    ∀ (env : Environment) (whole : Search) (visit : Visit),
      frame (opening env visit.state.database) whole → visit.cut = false →
        (visitor env resume visit).Covers whole visit.state visit.found fun rest =>
          ∃ spent : Search, spent.Exhausted ∧ frame spent rest
  stops : ∀ (resume : Continuation) (env : Environment),
    (∀ answer visit, visit.cut = true → resume answer visit = visit) →
      ∀ visit, visit.cut = true → visitor env resume visit = visit

variable {resume : Continuation} {frame : Search → Search → Prop} {visitCall : CallVisitor}

/-- One tuple of a fact. -/
def visitTuple (pattern : Pattern) (env : Environment) (resume : Continuation) (visit : Visit)
    (tuple : Tuple) : Visit :=
  match Pattern.unify pattern tuple env with
  | some extended => resume extended visit
  | none => visit

theorem foldl_visitTuple_of_cut {pattern : Pattern} {env : Environment}
    (short : ∀ answer visit, visit.cut = true → resume answer visit = visit)
    (tuples : List Tuple) {visit : Visit} (cut : visit.cut = true) :
    tuples.foldl (visitTuple pattern env resume) visit = visit := by
  induction tuples with
  | nil => rfl
  | cons tuple others inductionHypothesis =>
      have unchanged : visitTuple pattern env resume visit tuple = visit := by
        simp only [visitTuple]
        cases Pattern.unify pattern tuple env with
        | none => rfl
        | some extended => exact short extended visit cut
      rw [List.foldl_cons, unchanged, inductionHypothesis]

theorem covers_scan (follows : resume.Follows frame) {pattern narrowed : Pattern}
    {env : Environment} {tuples : List Tuple} {inner whole : Search} {visit : Visit}
    (sameStep : ∀ state, inner.step state = (Search.scan pattern narrowed env tuples).step state)
    (framed : frame inner whole) (uncut : visit.cut = false) :
    ((tuples.filter narrowed.admits).foldl (visitTuple pattern env resume) visit).Covers whole
      visit.state visit.found fun rest =>
        ∃ spent : Search, spent.Exhausted ∧ frame spent rest := by
  induction tuples generalizing inner whole visit with
  | nil =>
      refine .refl visit ⟨inner, ?_, framed⟩
      exact Search.exhausted_of_step (sameStep visit.state)
  | cons tuple others inductionHypothesis =>
      by_cases admitted : narrowed.admits tuple = true
      · rw [List.filter_cons_of_pos admitted, List.foldl_cons, visitTuple]
        cases unified : Pattern.unify pattern tuple env with
        | none =>
            refine inductionHypothesis (fun state => (sameStep state).trans ?_) framed uncut
            simp only [Search.step, Pattern.nextMatch, admitted, if_true, unified]
        | some extended =>
            have stepped : inner.step visit.state =
                (.answer extended (.scan pattern narrowed env others), visit.state) := by
              rw [sameStep]
              simp only [Search.step, Pattern.nextMatch, admitted, if_true, unified]
            refine (follows.answering framed stepped visit uncut rfl).bind
              (foldl_visitTuple_of_cut follows.cut _) fun stillUncut rest framedRest => ?_
            exact inductionHypothesis (fun _ => rfl) framedRest stillUncut
      · rw [List.filter_cons_of_neg admitted]
        refine inductionHypothesis (fun state => (sameStep state).trans ?_) framed uncut
        simp only [Search.step, Pattern.nextMatch, if_neg admitted]

/-- The left goal of a conjunction is visited with a continuation that visits the right one. -/
theorem follows_left {right : Goal}
    (rightCovered : Covered (start right) (visitWith visitCall right))
    (follows : resume.Follows frame) :
    Continuation.Follows
      (fun extended current => visitWith visitCall right extended resume current)
      (fun inner whole => ∃ current : Search, current.Exhausted ∧
        frame (.join current inner right) whole) where
  silently := by
    rintro inner whole rest state after ⟨current, exhausted, framed⟩ stepped
    have moved : (Search.join current inner right).step state =
        (.silent (.join .ended rest right), after) := by
      simp only [Search.step, Search.step_of_exhausted exhausted, stepped]
    obtain ⟨next, steps, framedNext⟩ := follows.silently framed moved
    exact ⟨next, steps, .ended, trivial, framedNext⟩
  answering := by
    rintro inner whole rest state after answer ⟨current, exhausted, framed⟩ stepped visit uncut
      sameState
    subst sameState
    have moved : (Search.join current inner right).step state =
        (.silent (.join (start right answer visit.state.database) rest right), visit.state) := by
      simp only [Search.step, Search.step_of_exhausted exhausted, stepped]
    obtain ⟨next, steps, framedNext⟩ := follows.silently framed moved
    exact .of_silent steps
      (rightCovered.covers resume _ (follows.join rest right) answer next visit framedNext uncut)
  cut := fun answer visit cut => rightCovered.stops resume answer follows.cut visit cut

theorem covered_visitWith
    (calls : ∀ rule arguments,
      Covered (fun env _ => .call rule arguments env) (visitCall rule arguments))
    (goal : Goal) : Covered (start goal) (visitWith visitCall goal) := by
  induction goal with
  | fact relation pattern =>
      refine ⟨fun resume frame follows env whole visit framed uncut => ?_,
        fun resume env short visit cut => foldl_visitTuple_of_cut short _ cut⟩
      exact covers_scan follows (fun _ => rfl) framed uncut
  | conj left right leftHypothesis rightHypothesis =>
      refine ⟨fun resume frame follows env whole visit framed uncut => ?_,
        fun resume env short visit cut => ?_⟩
      · have covers := leftHypothesis.covers _ _ (follows_left rightHypothesis follows) env whole
          visit ⟨.ended, trivial, framed⟩ uncut
        refine covers.mono ?_
        rintro rest ⟨spent, exhausted, current, currentExhausted, framedRest⟩
        exact ⟨.join current spent right, ⟨currentExhausted, exhausted⟩, framedRest⟩
      · exact leftHypothesis.stops _ env (rightHypothesis.stops resume · short) visit cut
  | disj left right leftHypothesis rightHypothesis =>
      refine ⟨fun resume frame follows env whole visit framed uncut => ?_,
        fun resume env short visit cut => ?_⟩
      · have covers := leftHypothesis.covers resume _ (follows.alternative right env) env whole
          visit framed uncut
        refine covers.bind (rightHypothesis.stops resume env follows.cut _) ?_
        rintro stillUncut rest ⟨spent, exhausted, framedRest⟩
        have moved : ∀ state, (Search.alternative spent right env).step state =
            (.silent (start right env state.database), state) := by
          intro state
          simp only [Search.step, Search.step_of_exhausted exhausted]
        obtain ⟨next, steps, framedNext⟩ := follows.silently framedRest (moved _)
        exact .of_silent steps
          (rightHypothesis.covers resume frame follows env next _ framedNext stillUncut)
      · simp only [visitWith]
        rw [leftHypothesis.stops resume env short visit cut]
        exact rightHypothesis.stops resume env short visit cut
  | call rule arguments =>
      exact ⟨fun resume frame follows env =>
          (calls rule (Pattern.narrow env arguments)).covers resume frame follows env,
        fun resume env => (calls rule (Pattern.narrow env arguments)).stops resume env⟩

/-- A visit of any depth goes through the search of its goal. -/
theorem covered_visit (depth : Nat) (goal : Goal) : Covered (start goal) (visit depth goal) := by
  induction depth generalizing goal with
  | zero =>
      refine covered_visitWith (fun rule arguments => ⟨?_, ?_⟩) goal
      · intro resume frame follows env whole visit framed uncut
        exact ⟨[], whole, visit.state, rfl, .refl _ _, fun notGivenUp => by cases notGivenUp⟩
      · intro resume env short visit cut
        simp only [Visit.giveUp, ← cut]
  | succ depth inductionHypothesis =>
      refine covered_visitWith (fun rule arguments => ⟨?_, ?_⟩) goal
      · intro resume frame follows env whole visit framed uncut
        simp only [uncut, Bool.false_eq_true, if_false, Rule.instantiate_eq]
        obtain ⟨next, steps, framedNext⟩ :=
          follows.silently framed (Search.step_call rule arguments env visit.state)
        have covers := (inductionHypothesis (rule.body visit.state.nextId)).covers _ _
          (follows.returning arguments (rule.parameters visit.state.nextId) env)
          (rule.entry arguments visit.state.nextId) next
          ⟨visit.found, rule.entered arguments visit.state, false⟩ framedNext rfl
        refine .of_silent steps (covers.mono ?_)
        rintro rest ⟨spent, exhausted, framedRest⟩
        exact ⟨.returning spent arguments (rule.parameters visit.state.nextId) env, exhausted,
          framedRest⟩
      · intro resume env short visit cut
        simp only [cut, if_true]

/-- The search of a goal finds what its visit finds, in the same states; when the visit was not cut
short, both come to their end in the same state. -/
theorem steps_of_visitAll (depth : Nat) (goal : Goal) (env : Environment) (state : State) :
    ∃ rest final,
      (start goal env state.database).Steps state (visitAll depth goal env state).found.reverse
        rest final ∧
      ((visitAll depth goal env state).cut = false →
        rest.Exhausted ∧ final = (visitAll depth goal env state).state) := by
  have follows : Continuation.Follows Visit.note (· = ·) :=
    { silently := fun same stepped => ⟨_, .silent (same ▸ stepped) (.refl _ _), rfl⟩
      answering := by
        rintro inner whole rest state after answer rfl stepped visit uncut rfl
        refine ⟨[(answer, visit.state)], rest, visit.state, ?_, .answer stepped (.refl _ _), ?_⟩
        · simp only [Visit.note, uncut, Bool.false_eq_true, if_false]
          rfl
        · intro stillUncut
          simp only [Visit.note, uncut, Bool.false_eq_true, if_false, and_self]
      cut := fun answer visit cut => by simp only [Visit.note, cut, if_true] }
  obtain ⟨trace, rest, final, found, steps, reached⟩ :=
    (covered_visit depth goal).covers Visit.note (· = ·) follows env
      (start goal env state.database) (.start state) rfl rfl
  have sameTrace : (visitAll depth goal env state).found.reverse = trace := by
    rw [visitAll, found, Visit.start, List.append_nil, List.reverse_reverse]
  rw [sameTrace]
  refine ⟨rest, final, steps, fun uncut => ?_⟩
  obtain ⟨⟨spent, exhausted, rfl⟩, same⟩ := reached uncut
  exact ⟨exhausted, same⟩

end Goal

end GroundLogic
