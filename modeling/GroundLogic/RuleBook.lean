import GroundLogic.State

/-!
# Rule books

A rule book holds rules by name, in the order in which the names were first registered.  A rule
registered under a name that is already there takes the place of the older one.
-/

namespace GroundLogic

/-- Rules with different names, in order of registration. -/
structure RuleBook where
  rules : List Rule
  distinct : (rules.map Rule.name).Nodup

namespace RuleBook

def empty : RuleBook :=
  ⟨[], List.nodup_nil⟩

instance : Inhabited RuleBook :=
  ⟨empty⟩

def get? (book : RuleBook) (name : String) : Option Rule :=
  book.rules.find? fun rule => rule.name = name

def contains (book : RuleBook) (name : String) : Bool :=
  (book.get? name).isSome

def names (book : RuleBook) : List String :=
  book.rules.map Rule.name

def size (book : RuleBook) : Nat :=
  book.rules.length

def isEmpty (book : RuleBook) : Bool :=
  book.rules.isEmpty

/-- The rules with one more: at the place of the rule of the same name, or at the end. -/
def insertInto (rule : Rule) : List Rule → List Rule
  | [] => [rule]
  | listed :: rest =>
      if listed.name = rule.name then rule :: rest else listed :: insertInto rule rest

theorem mem_names_insertInto {rule : Rule} {rules : List Rule} {name : String}
    (member : name ∈ (insertInto rule rules).map Rule.name) :
    name = rule.name ∨ name ∈ rules.map Rule.name := by
  induction rules with
  | nil => exact Or.inl (List.mem_singleton.1 member)
  | cons listed rest inductionHypothesis =>
      simp only [insertInto] at member
      split at member
      · rcases List.mem_cons.1 member with here | later
        · exact Or.inl here
        · exact Or.inr (List.mem_cons_of_mem _ later)
      · rcases List.mem_cons.1 member with here | later
        · exact Or.inr (here ▸ List.mem_cons_self ..)
        · rcases inductionHypothesis later with new | old
          · exact Or.inl new
          · exact Or.inr (List.mem_cons_of_mem _ old)

theorem nodup_names_insertInto (rule : Rule) {rules : List Rule}
    (distinct : (rules.map Rule.name).Nodup) :
    ((insertInto rule rules).map Rule.name).Nodup := by
  induction rules with
  | nil => exact List.pairwise_singleton _ _
  | cons listed rest inductionHypothesis =>
      rw [List.map_cons, List.nodup_cons] at distinct
      simp only [insertInto]
      split
      · next same =>
          rw [List.map_cons, List.nodup_cons, ← same]
          exact distinct
      · next different =>
          rw [List.map_cons, List.nodup_cons]
          refine ⟨fun member => ?_, inductionHypothesis distinct.2⟩
          rcases mem_names_insertInto member with new | old
          · exact different new
          · exact distinct.1 old

def insert (book : RuleBook) (rule : Rule) : RuleBook :=
  ⟨insertInto rule book.rules, nodup_names_insertInto rule book.distinct⟩

theorem find?_insertInto (rule : Rule) (rules : List Rule) (name : String) :
    (insertInto rule rules).find? (fun listed => listed.name = name) =
      if rule.name = name then some rule
      else rules.find? (fun listed => listed.name = name) := by
  induction rules with
  | nil => by_cases same : rule.name = name <;> simp [insertInto, same]
  | cons listed rest inductionHypothesis =>
      simp only [insertInto]
      by_cases here : listed.name = rule.name
      · by_cases same : rule.name = name
        · simp [here, same]
        · simp [here, same]
      · by_cases same : rule.name = name
        · have different : listed.name ≠ name := fun equality =>
            here (equality.trans same.symm)
          simp [same, different, inductionHypothesis]
        · simp only [if_neg here, List.find?_cons, inductionHypothesis, if_neg same]

/-- A registered rule is found under its own name, and no other name is affected. -/
theorem get?_insert (book : RuleBook) (rule : Rule) (name : String) :
    (book.insert rule).get? name = if rule.name = name then some rule else book.get? name :=
  find?_insertInto rule book.rules name

/-- Registers a rule and notes it.  The answer is the rule that it replaces. -/
def register (book : RuleBook) (rule : Rule) (state : State) :
    Option Rule × RuleBook × State :=
  (book.get? rule.name, book.insert rule, state.record (.registered rule))

end RuleBook

end GroundLogic
