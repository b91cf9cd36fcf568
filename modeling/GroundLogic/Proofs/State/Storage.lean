import GroundLogic.Proofs.State.Growth
import Mathlib.Data.List.Nodup

/-!
# What is stored under a relation

A relation that is new has no arity, no tuples and no line in the journal.  From then on its table
and the journal agree (`Keeps`): the arity was announced once if it is fixed, all stored tuples have
it, and they are the tuples entered with success, without repetitions, in the order in which they
came first.  Every change of a state keeps this (`Keeps.change`), so every sequence of requests
does, and what the next request answers can be read off the table (`State.responds`).
-/

namespace GroundLogic

/-! ## Events about one relation -/

/-- The tuple that an event enters into a relation. -/
def Event.entered? (relation : Relation) : Event → Option Tuple
  | .inserted listed tuple => if listed = relation then some tuple else none
  | _ => none

/-- Whether an event fixes the arity of a relation. -/
def Event.fixesArity (relation : Relation) : Event → Bool
  | .arityFixed listed _ => listed = relation
  | _ => false

/-- The tuples that were entered into a relation with success, oldest first, with repetitions. -/
def Journal.entries (relation : Relation) (journal : Journal) : List Tuple :=
  journal.reverse.filterMap (Event.entered? relation)

theorem Journal.entries_cons (relation : Relation) (event : Event) (journal : Journal) :
    entries relation (event :: journal) =
      entries relation journal ++ (event.entered? relation).toList := by
  simp only [entries, List.reverse_cons, List.filterMap_append]
  cases found : event.entered? relation <;> simp [found]

/-- What comes last is kept if it has not come before. -/
theorem eraseDups_append_singleton (entries : List Tuple) (tuple : Tuple) :
    (entries ++ [tuple]).eraseDups =
      if tuple ∈ entries.eraseDups then entries.eraseDups else entries.eraseDups ++ [tuple] := by
  rw [List.eraseDups_append]
  by_cases listed : tuple ∈ entries
  · simp [List.removeAll, listed]
  · simp [List.removeAll, listed, List.eraseDups_cons]

namespace State

/-- Nothing has happened to the relation yet. -/
structure New (relation : Relation) (state : State) : Prop where
  blank : state.table relation = .empty
  unentered : ∀ event ∈ state.journal, event.entered? relation = none
  unfixed : ∀ event ∈ state.journal, event.fixesArity relation = false

/-- The table of a relation agrees with the journal.  That there are tuples only if the arity is
fixed is part of `sized`. -/
structure Keeps (relation : Relation) (state : State) : Prop where
  sized : ∀ tuple ∈ (state.table relation).tuples,
    (state.table relation).arity = some tuple.length
  distinct : (state.table relation).tuples.Nodup
  order : (state.table relation).tuples = (state.journal.entries relation).eraseDups
  announced : state.journal.filter (Event.fixesArity relation) =
    ((state.table relation).arity.map (Event.arityFixed relation)).toList

variable {relation : Relation} {state before after : State}

/-! ## Single operations -/

/-- The relation has this arity afterwards, and nothing else is stored than before. -/
def Fixes (relation : Relation) (arity : Nat) (before after : State) : Prop :=
  ∀ tested, after.table tested =
    if relation = tested then ⟨some arity, (before.table relation).tuples⟩
    else before.table tested

/-- The relation has the length of the tuple as arity afterwards, and the tuple is stored, in the
last place if it was not stored before.  Nothing else is stored than before. -/
structure Files (relation : Relation) (tuple : Tuple) (before after : State) : Prop where
  arity : (after.table relation).arity = some tuple.length
  again : tuple ∈ (before.table relation).tuples →
    (after.table relation).tuples = (before.table relation).tuples
  first : tuple ∉ (before.table relation).tuples →
    (after.table relation).tuples = (before.table relation).tuples ++ [tuple]
  elsewhere : ∀ tested, relation ≠ tested → after.table tested = before.table tested

theorem Files.mem {tuple : Tuple} (files : before.Files relation tuple after) :
    tuple ∈ (after.table relation).tuples := by
  by_cases stored : tuple ∈ (before.table relation).tuples
  · rw [files.again stored]
    exact stored
  · rw [files.first stored]
    exact List.mem_append_right _ (List.mem_singleton_self tuple)

theorem fixes_of_checkArity {actual : Nat}
    (passed : before.checkArity relation actual = .ok after) :
    before.Fixes relation actual after := by
  intro tested
  simp only [checkArity] at passed
  split at passed
  · cases passed
    simp only [table, putTable, record, Database.table_put]
  · next expected fixed =>
      split at passed
      · next same =>
          cases passed
          by_cases here : relation = tested
          · rw [if_pos here, ← here, ← same, ← fixed]
          · rw [if_neg here]
      · cases passed

/-- An inserted tuple is new if it was not there, and it is there afterwards. -/
theorem table_of_insert {tuple : Tuple} {isNew : Bool}
    (inserted : before.insert relation tuple = .ok (isNew, after)) :
    (isNew = true ↔ tuple ∉ (before.table relation).tuples) ∧
      before.Files relation tuple after := by
  simp only [insert] at inserted
  split at inserted
  · cases inserted
  · next checked passed =>
      have fixes := fixes_of_checkArity passed
      have noted : (checked.record (.inserted relation tuple)).table relation =
          ⟨some tuple.length, (before.table relation).tuples⟩ :=
        (fixes relation).trans (if_pos rfl)
      rw [noted] at inserted
      split at inserted
      · next stored =>
          cases inserted
          refine ⟨by simp [stored], by rw [noted], fun _ => by rw [noted],
            fun new => absurd stored new, fun tested different => ?_⟩
          exact (fixes tested).trans (if_neg different)
      · next new =>
          cases inserted
          have filed : ∀ tested, State.table ((checked.record (.inserted relation tuple)).putTable
              relation ⟨some tuple.length, (before.table relation).tuples ++ [tuple]⟩) tested =
                if relation = tested then
                  ⟨some tuple.length, (before.table relation).tuples ++ [tuple]⟩
                else checked.table tested :=
            fun tested => Database.table_put ..
          have here := (filed relation).trans (if_pos rfl)
          refine ⟨by simp [new], by rw [here], fun stored => absurd stored new,
            fun _ => by rw [here], fun tested different => ?_⟩
          rw [filed tested, if_neg different]
          exact (fixes tested).trans (if_neg different)

/-! ## Relations that are new -/

theorem new_initial (relation : Relation) : State.initial.New relation where
  blank := rfl
  unentered _ member := absurd member List.not_mem_nil
  unfixed _ member := absurd member List.not_mem_nil

theorem New.keeps (new : state.New relation) : state.Keeps relation := by
  have noEntries : state.journal.entries relation = [] := by
    rw [Journal.entries, List.filterMap_eq_nil_iff]
    exact fun event member => new.unentered event (List.mem_reverse.1 member)
  have noArity : state.journal.filter (Event.fixesArity relation) = [] := by
    rw [List.filter_eq_nil_iff]
    exact fun event member => by simp [new.unfixed event member]
  constructor
  · rw [new.blank]
    exact fun tuple member => absurd member List.not_mem_nil
  · rw [new.blank]
    exact List.nodup_nil
  · rw [new.blank, noEntries]
    rfl
  · rw [new.blank, noArity]
    rfl

/-! ## Changes -/

/-- Lines that are about something else do not matter. -/
theorem Keeps.record (keeps : state.Keeps relation) {event : Event}
    (unentered : event.entered? relation = none) (unfixed : event.fixesArity relation = false) :
    (state.record event).Keeps relation := by
  refine ⟨keeps.sized, keeps.distinct, ?_, ?_⟩
  · simp only [State.record, Journal.entries_cons, unentered, Option.toList_none, List.append_nil]
    exact keeps.order
  · simp only [State.record, List.filter_cons, unfixed]
    exact keeps.announced

/-- Other tables do not matter. -/
theorem Keeps.putTable (keeps : state.Keeps relation) {changed : Relation}
    (different : changed ≠ relation) (table : Table) :
    (state.putTable changed table).Keeps relation := by
  have same : (state.putTable changed table).table relation = state.table relation := by
    simp only [State.table, State.putTable, Database.table_put, if_neg different]
  constructor
  · rw [same]
    exact keeps.sized
  · rw [same]
    exact keeps.distinct
  · rw [same]
    exact keeps.order
  · rw [same]
    exact keeps.announced

theorem Keeps.fix (keeps : state.Keeps relation) (unfixed : (state.table relation).arity = none)
    (arity : Nat) :
    ((state.record (.arityFixed relation arity)).putTable relation
      { state.table relation with arity := some arity }).Keeps relation := by
  have noTuples : (state.table relation).tuples = [] := by
    rw [List.eq_nil_iff_forall_not_mem]
    intro tuple stored
    cases unfixed.symm.trans (keeps.sized tuple stored)
  have order := keeps.order
  have announced := keeps.announced
  rw [noTuples] at order
  rw [unfixed] at announced
  constructor <;>
    simp only [State.table, State.putTable, State.record, Database.table_put_self]
  · change ∀ tuple ∈ (state.table relation).tuples, _
    rw [noTuples]
    exact fun tuple member => absurd member List.not_mem_nil
  · exact keeps.distinct
  · simp only [Journal.entries_cons, Event.entered?, Option.toList_none, List.append_nil]
    exact keeps.order
  · simp only [List.filter_cons, Event.fixesArity, decide_true, if_true, announced]
    rfl

theorem Keeps.repeat (keeps : state.Keeps relation) {tuple : Tuple}
    (stored : tuple ∈ (state.table relation).tuples) :
    (state.record (.inserted relation tuple)).Keeps relation := by
  refine ⟨keeps.sized, keeps.distinct, ?_, ?_⟩
  · rw [keeps.order] at stored
    simp only [State.record, Journal.entries_cons, Event.entered?, if_true, Option.toList_some]
    rw [eraseDups_append_singleton, if_pos stored]
    exact keeps.order
  · simp only [State.record, List.filter_cons, Event.fixesArity]
    exact keeps.announced

theorem Keeps.add (keeps : state.Keeps relation) {tuple : Tuple}
    (fits : (state.table relation).arity = some tuple.length)
    (new : tuple ∉ (state.table relation).tuples) :
    ((state.record (.inserted relation tuple)).putTable relation
      { state.table relation with
        tuples := (state.table relation).tuples ++ [tuple] }).Keeps relation := by
  constructor <;>
    simp only [State.table, State.putTable, State.record, Database.table_put_self]
  · intro tested member
    rcases List.mem_append.1 member with old | now
    · exact keeps.sized tested old
    · rw [List.mem_singleton.1 now]
      exact fits
  · refine List.nodup_append.2 ⟨keeps.distinct, List.nodup_singleton tuple, ?_⟩
    intro old member other single same
    rw [same, List.mem_singleton.1 single] at member
    exact new member
  · rw [keeps.order] at new
    simp only [Journal.entries_cons, Event.entered?, if_true, Option.toList_some]
    rw [eraseDups_append_singleton, if_neg new]
    exact congrArg (· ++ [tuple]) keeps.order
  · simp only [List.filter_cons, Event.fixesArity]
    exact keeps.announced

/-- Every change of a state keeps the table of a relation and the journal in agreement. -/
theorem Keeps.change (keeps : before.Keeps relation) (change : Change before after) :
    after.Keeps relation := by
  cases change with
  | declared => exact ⟨keeps.sized, keeps.distinct, keeps.order, keeps.announced⟩
  | opened rule =>
      have declared : (before.declareAll rule.template.declarations).Keeps relation :=
        ⟨keeps.sized, keeps.distinct, keeps.order, keeps.announced⟩
      exact declared.record rfl rfl
  | @fixed _ changed arity unfixed =>
      by_cases here : changed = relation
      · subst here
        exact keeps.fix unfixed arity
      · have elsewhere : (Event.arityFixed changed arity).fixesArity relation = false :=
          decide_eq_false here
        exact (keeps.record rfl elsewhere).putTable here _
  | @repeated _ changed tuple fits stored =>
      by_cases here : changed = relation
      · subst here
        exact keeps.repeat stored
      · have elsewhere : (Event.inserted changed tuple).entered? relation = none := if_neg here
        exact keeps.record elsewhere rfl
  | @added _ changed tuple fits new =>
      by_cases here : changed = relation
      · subst here
        exact keeps.add fits new
      · have elsewhere : (Event.inserted changed tuple).entered? relation = none := if_neg here
        exact (keeps.record elsewhere rfl).putTable here _
  | defined => exact keeps.record rfl rfl
  | instantiated => exact keeps.record rfl rfl
  | registered => exact keeps.record rfl rfl

theorem Keeps.grow (keeps : before.Keeps relation) (grows : before.Grows after) :
    after.Keeps relation := by
  induction grows with
  | refl => exact keeps
  | tail _ change inductionHypothesis => exact inductionHypothesis.change change

/-- Whatever has happened since the start, the tables agree with the journal. -/
theorem Grows.keeps (grows : State.initial.Grows state) (relation : Relation) :
    state.Keeps relation :=
  (new_initial relation).keeps.grow grows

end State

end GroundLogic
