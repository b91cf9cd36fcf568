import GroundLogic.Proofs.Closure.Round
import GroundLogic.Proofs.Goal.Consistency
import GroundLogic.Proofs.Goal.Reach
import GroundLogic.Proofs.State.Growth

/-!
# Transitive closure

On a binary relation without cycles the closure rule finds every path once.  The argument goes along
the links: a call whose first argument is known goes through the paths from there
(`exists_continues`), since what it calls begins one link further on.  From outside, a query with
either position open or concrete answers with each pair of ends as often as there are paths between
them (`query_closure`).
-/

namespace GroundLogic

namespace Rule.Closes

variable {rule : Rule} {edge : Relation} {database : Database}

/-! ## Entering the body -/

/-- What the parameters are bound to when the body is entered, and that the value between is not
bound. -/
theorem get?_entry_pair (closes : rule.Closes edge) (first last : Term) (base : Nat) :
    (rule.entry [first, last] base).get? ⟨base⟩ = first.value? ∧
      (rule.entry [first, last] base).get? ⟨base + 1⟩ = last.value? ∧
      (rule.entry [first, last] base).get? ⟨base + 2⟩ = none := by
  have entered : ∀ unknown constant,
      (rule.entry [first, last] base).get? unknown = some constant ↔
        (Term.value constant = first ∧ unknown = ⟨base⟩) ∨
          (Term.value constant = last ∧ unknown = ⟨base + 1⟩) := by
    intro unknown constant
    rw [get?_entry, closes.parameters_eq]
    simp
  have isValue : ∀ (term : Term) (constant : Value),
      Term.value constant = term ↔ term.value? = some constant := by
    intro term constant
    cases term <;> simp [Term.value?, eq_comm]
  refine ⟨Option.ext fun constant => ?_, Option.ext fun constant => ?_, ?_⟩
  · rw [entered, ← isValue]
    simp
  · rw [entered, ← isValue]
    simp
  · rw [Option.eq_none_iff_forall_ne_some]
    intro constant found
    rw [entered] at found
    simp at found

/-- What a caller binds back of an answer is what it would take to unify with its end. -/
theorem sees_bindBack (closes : rule.Closes edge) (env : Environment) (start : Value)
    (last : Term) (base : Nat) :
    Sees (rule.entry [.value start, last.narrow env] base) ⟨base⟩ ⟨base + 1⟩
      (fun answer =>
        Pattern.bindBack answer [.value start, last.narrow env] [⟨base⟩, ⟨base + 1⟩] env)
      (fun _ tail => last.unify env tail) := by
  obtain ⟨_, lastEntered, _⟩ := closes.get?_entry_pair (.value start) (last.narrow env) base
  constructor
  · intro head tail answer extension _ lastFound
    have agrees : ∀ constant, last.narrow env = .value constant → tail = constant := by
      intro constant narrowed
      have entered : (rule.entry [.value start, last.narrow env] base).get? ⟨base + 1⟩ =
          some constant := by
        rw [lastEntered, narrowed]
        rfl
      have kept := extension _ constant entered
      rw [lastFound] at kept
      exact Option.some.inj kept
    cases last with
    | value constant =>
        rw [agrees constant rfl]
        simp only [Term.narrow, Pattern.bindBack, Term.unify, if_true]
    | wildcard => simp only [Term.narrow, Pattern.bindBack, Term.unify]
    | var unknown =>
        cases known : env.get? unknown with
        | some constant =>
            have narrowed : (Term.var unknown).narrow env = .value constant := by
              simp only [Term.narrow, known]
            rw [narrowed, agrees constant narrowed]
            simp only [Pattern.bindBack, Term.unify, Environment.bind, known, if_true]
        | none =>
            simp only [Term.narrow, known, Pattern.bindBack, lastFound, Term.unify]
            cases env.bind unknown tail <;> rfl
  · intro head tail disagrees
    simp only [Environment.agreesWith, lastEntered] at disagrees
    cases last with
    | value constant =>
        simp only [Term.narrow, Term.value?] at disagrees
        rw [Term.unify, if_neg (of_decide_eq_false disagrees)]
    | wildcard => simp [Term.narrow, Term.value?] at disagrees
    | var unknown =>
        cases known : env.get? unknown with
        | some constant =>
            simp only [Term.narrow, known, Term.value?] at disagrees
            simp only [Term.unify, Environment.bind, known]
            rw [if_neg (of_decide_eq_false disagrees)]
        | none => simp [Term.narrow, known, Term.value?] at disagrees

/-- An answer to a query is the pair of the values of the parameters, if the pattern admits it. -/
theorem sees_project (closes : rule.Closes edge) (first last : Term) (base : Nat) :
    Sees (rule.entry [first, last] base) ⟨base⟩ ⟨base + 1⟩
      (fun answer => some (Pattern.project answer [first, last] [⟨base⟩, ⟨base + 1⟩]))
      (fun head tail =>
        if Pattern.admits [first, last] [head, tail] then some [.value head, .value tail]
        else none) := by
  obtain ⟨firstEntered, lastEntered, _⟩ := closes.get?_entry_pair first last base
  constructor
  · intro head tail answer extension firstFound lastFound
    have sameHead : ∀ constant, first = .value constant → constant = head := by
      rintro constant rfl
      have kept := extension _ constant firstEntered
      rw [firstFound] at kept
      exact (Option.some.inj kept).symm
    have sameTail : ∀ constant, last = .value constant → constant = tail := by
      rintro constant rfl
      have kept := extension _ constant lastEntered
      rw [lastFound] at kept
      exact (Option.some.inj kept).symm
    cases first <;> cases last <;>
      simp [Pattern.project, Pattern.admits, Term.admits, firstFound, lastFound, sameHead, sameTail]
  · intro head tail disagrees
    simp only [Environment.agreesWith, lastEntered] at disagrees
    cases last with
    | value constant =>
        have different : ¬constant = tail := of_decide_eq_false disagrees
        simp [Pattern.admits, Term.admits, different]
    | wildcard => simp [Term.value?] at disagrees
    | var unknown => simp [Term.value?] at disagrees

/-! ## Going along the links -/

/-- The links that go on from a concrete argument, or all of them. -/
theorem liveLinks_entry (closes : rule.Closes edge) (first last : Term) (base : Nat)
    (links : List (Value × Value)) :
    (rule.entry [first, last] base).liveLinks ⟨base⟩ links =
      links.filter fun link => first.admits link.1 := by
  obtain ⟨firstEntered, _, _⟩ := closes.get?_entry_pair first last base
  refine List.filter_congr fun link _ => ?_
  simp only [Environment.agreesWith, firstEntered]
  cases first <;> rfl

/-- A call whose first argument is known goes through all paths from there. -/
theorem exists_continues (closes : rule.Closes edge) (binary : (database.table edge).Binary)
    (acyclic : (database.table edge).Acyclic) (start : Value) :
    ∃ tails, (database.table edge).PathsFrom start tails ∧ rule.Continues database start tails := by
  induction start using acyclic.wellFounded.induction with
  | h start inductionHypothesis =>
      choose! tails spec using inductionHypothesis
      let live := (database.table edge).links.filter fun link =>
        Term.admits (.value start) link.1
      have isLive : ∀ link, link ∈ live ↔ link.1 = start ∧
          (database.table edge).Linked start link.2 := by
        intro link
        simp only [live, List.mem_filter, Term.admits, decide_eq_true_eq, eq_comm (a := start)]
        constructor
        · rintro ⟨stored, rfl⟩
          exact ⟨rfl, Table.mem_links.1 stored⟩
        · rintro ⟨rfl, linked⟩
          exact ⟨Table.mem_links.2 linked, rfl⟩
      have each : ∀ link ∈ live, (database.table edge).PathsFrom link.2 (tails link.2) :=
        fun link member => (spec link.2 ((isLive link).1 member).2).1
      have heads : ∀ trail ∈ trails live tails, trail.1 = start := by
        rintro ⟨first, stops, last⟩ member
        rcases mem_trails.1 member with ⟨_, stored⟩ | ⟨_, _, _, stored, _⟩
        · exact ((isLive _).1 stored).1
        · exact ((isLive _).1 stored).1
      refine ⟨(trails live tails).map Prod.snd, ⟨?_, fun stops last => ?_⟩, ?_⟩
      · refine (nodup_trails (binary.nodup_links.filter _) each).map_on ?_
        intro trail member other otherMember same
        exact Prod.ext ((heads trail member).trans (heads other otherMember).symm) same
      · rw [← mem_trails_iff_path each fun next => (isLive (start, next)).trans (by simp)]
        constructor
        · intro member
          obtain ⟨⟨first, _⟩, listed, rfl⟩ := List.mem_map.1 member
          obtain rfl : first = start := heads _ listed
          exact listed
        · exact fun member => List.mem_map_of_mem member
      · intro env first last narrowed
        obtain ⟨base, fresh⟩ :=
          Search.exists_below_call rule (Pattern.narrow env [first, last]) env
        have narrowedPair : Pattern.narrow env [first, last] =
            [.value start, last.narrow env] := by
          simp only [Pattern.narrow, List.map_cons, narrowed, List.map_nil]
        obtain ⟨_, _, unbound⟩ :=
          closes.get?_entry_pair (.value start) (last.narrow env) base
        obtain ⟨found, body, seen⟩ := closes.exists_lists_body binary unbound
          (fun link member => by
            rw [closes.liveLinks_entry] at member
            exact (spec link.2 ((isLive link).1 member).2).2)
        have answers := seen (closes.sees_bindBack env start last base)
        rw [closes.liveLinks_entry] at answers
        rw [List.filterMap_map]
        have listed : Goal.Lists database (.call rule [first, last]) env
            (found.filterMap fun answer => Pattern.bindBack answer
              (Pattern.narrow env [first, last]) (rule.parameters base) env) := by
          refine .call fresh ?_
          rw [narrowedPair]
          exact body
        rw [narrowedPair, closes.parameters_eq, answers] at listed
        exact listed

/-! ## Queries -/

/-- The answers of the body are the paths whose ends the pattern admits, each path once. -/
theorem exists_paths (closes : rule.Closes edge) (binary : (database.table edge).Binary)
    (acyclic : (database.table edge).Acyclic) (first last : Term) (base : Nat) :
    ∃ (found : List Environment) (paths : List (Value × List Value × Value)),
      Goal.Lists database (rule.body base) (rule.entry [first, last] base) found ∧
      paths.Nodup ∧
      (∀ head stops tail, (head, stops, tail) ∈ paths ↔
        Pattern.admits [first, last] [head, tail] = true ∧
          (database.table edge).Path head stops tail) ∧
      found.map (fun answer => Pattern.project answer [first, last] (rule.parameters base)) =
        paths.map fun path => [.value path.1, .value path.2.2] := by
  choose tails pathsFrom continues using closes.exists_continues binary acyclic
  let live := (database.table edge).links.filter fun link => first.admits link.1
  let admitted : Value × List Value × Value → Bool := fun path =>
    Pattern.admits [first, last] [path.1, path.2.2]
  obtain ⟨_, _, unbound⟩ := closes.get?_entry_pair first last base
  obtain ⟨found, body, seen⟩ :=
    closes.exists_lists_body binary unbound fun link _ => continues link.2
  refine ⟨found, (trails live tails).filter admitted, body, ?_, fun head stops tail => ?_, ?_⟩
  · exact (nodup_trails (binary.nodup_links.filter _) fun link _ => pathsFrom link.2).filter _
  · rw [List.mem_filter, and_comm]
    refine and_congr_right fun isAdmitted => ?_
    refine mem_trails_iff_path (fun link _ => pathsFrom link.2) fun next => ?_
    have headAdmitted : first.admits head = true := (Bool.and_eq_true_iff.1 isAdmitted).1
    rw [List.mem_filter, and_iff_left headAdmitted]
    exact Table.mem_links
  · have answers := seen (closes.sees_project first last base)
    rw [closes.liveLinks_entry] at answers
    rw [closes.parameters_eq, ← List.filterMap_eq_map', answers, ← List.filterMap_eq_map',
      List.filterMap_filter]

/-- The rule is accepted where the relation has pairs. -/
theorem define_eq {state : State} (closes : rule.Closes edge)
    (fixed : (state.table edge).arity = some 2) : (rule.define state).1 = .ok rule := by
  have opened : ((rule.opened state).table edge).arity = some 2 := fixed
  have checked : Goal.check (rule.opened state) (rule.body state.nextId) [] = .ok [] := by
    rw [closes.body_eq]
    simp [Goal.check, Goal.expectedArity, opened, checkArity, Rule.arity, closes.arity]
  rcases rule.define_cases state with ⟨validated, _, accepted⟩ | ⟨error, refused, _⟩
  · rw [accepted]
  · rw [build_of_plain closes.inner, Goal.validate_eq_error_iff, checked] at refused
    cases refused

/-- A pair of values stands among the ends of paths as often as there are paths between them. -/
theorem exists_ways {table : Table} {paths : List (Value × List Value × Value)} {head tail : Value}
    (distinct : paths.Nodup)
    (mem_iff : ∀ stops, (head, stops, tail) ∈ paths ↔ table.Path head stops tail) :
    ∃ ways : List (List Value), ways.Nodup ∧
      (∀ stops, stops ∈ ways ↔ table.Path head stops tail) ∧
      (paths.map fun path => [Term.value path.1, .value path.2.2]).count
        [.value head, .value tail] = ways.length := by
  have mem_between : ∀ path, path ∈ paths.filter (fun path =>
      [Term.value path.1, .value path.2.2] == [.value head, .value tail]) ↔
        path ∈ paths ∧ path.1 = head ∧ path.2.2 = tail := by
    intro path
    simp
  refine ⟨(paths.filter fun path =>
    [Term.value path.1, .value path.2.2] == [.value head, .value tail]).map fun path => path.2.1,
    ?_, fun stops => ?_, ?_⟩
  · refine (distinct.filter _).map_on fun path member other otherMember same => ?_
    obtain ⟨_, heads, tails⟩ := (mem_between path).1 member
    obtain ⟨_, otherHeads, otherTails⟩ := (mem_between other).1 otherMember
    exact Prod.ext (heads.trans otherHeads.symm)
      (Prod.ext same (tails.trans otherTails.symm))
  · rw [List.mem_map, ← mem_iff]
    constructor
    · rintro ⟨⟨_, _, _⟩, member, rfl⟩
      obtain ⟨listed, rfl, rfl⟩ := (mem_between _).1 member
      exact listed
    · exact fun listed => ⟨_, (mem_between _).2 ⟨listed, rfl, rfl⟩, rfl⟩
  · rw [List.length_map, List.count, List.countP_map, List.countP_eq_length_filter]
    rfl

/-- The closure rule computes the transitive closure of a binary relation without cycles.  It can
be defined; every query about two terms ends, and its answers are the pairs of values that the
pattern admits, each as often as there are paths from the one to the other; and whether there is a
path between two values is found out either way. -/
theorem query_closure {state : State} (closes : rule.Closes edge)
    (fixed : (state.table edge).arity = some 2) (binary : (state.table edge).Binary)
    (acyclic : (state.table edge).Acyclic) (below : rule.Below state.nextId)
    (first last : Term) :
    (rule.define state).1 = .ok rule ∧
    rule.query [first, last] = .ok ⟨rule, [first, last]⟩ ∧
    (∃ answers : List Pattern,
      (∃ enough, ∀ allowed, enough ≤ allowed → ∀ wanted,
        (((RuleQuery.mk rule [first, last]).enumerate state).1.take allowed wanted
          ((RuleQuery.mk rule [first, last]).enumerate state).2).1 = .upTo wanted answers) ∧
      (∀ answer ∈ answers, ∃ head tail, answer = [.value head, .value tail]) ∧
      (∀ head tail, Pattern.admits [first, last] [head, tail] = true →
        ∃ ways : List (List Value), ways.Nodup ∧
          (∀ stops, stops ∈ ways ↔ (state.table edge).Path head stops tail) ∧
          answers.count [.value head, .value tail] = ways.length) ∧
      ∀ head tail, [.value head, .value tail] ∈ answers ↔
        Pattern.admits [first, last] [head, tail] = true ∧
          Relation.TransGen (state.table edge).Linked head tail) ∧
    ∀ head tail, ∃ truth : Bool,
      (truth = true ↔ Relation.TransGen (state.table edge).Linked head tail) ∧
      ∃ enough, ∀ allowed, enough ≤ allowed →
        (rule.succeeds allowed [.value head, .value tail] state).map Prod.fst =
          .ok (some truth) := by
  have pairLength : ∀ start goal : Term, [start, goal].length = rule.arity :=
    fun _ _ => closes.arity.symm
  refine ⟨closes.define_eq fixed, ?_, ?_, fun head tail => ?_⟩
  · simp only [Rule.query, checkArity, pairLength, if_true]
  · obtain ⟨found, paths, lists, distinct, mem_iff, projected⟩ :=
      closes.exists_paths binary acyclic first last state.nextId
    have batches := exists_enumeration lists below
    rw [projected] at batches
    refine ⟨_, batches, ?_, fun head tail admitted => ?_, fun head tail => ?_⟩
    · intro answer member
      obtain ⟨path, _, rfl⟩ := List.mem_map.1 member
      exact ⟨_, _, rfl⟩
    · exact exists_ways distinct fun stops =>
        (mem_iff head stops tail).trans (and_iff_right admitted)
    · rw [← Table.exists_path_iff, List.mem_map]
      constructor
      · rintro ⟨⟨_, stops, _⟩, member, same⟩
        cases same
        obtain ⟨admitted, path⟩ := (mem_iff _ _ _).1 member
        exact ⟨admitted, stops, path⟩
      · rintro ⟨admitted, stops, path⟩
        exact ⟨_, (mem_iff _ _ _).2 ⟨admitted, path⟩, rfl⟩
  · obtain ⟨found, paths, lists, _, mem_iff, projected⟩ :=
      closes.exists_paths binary acyclic (.value head) (.value tail) state.nextId
    refine ⟨!found.isEmpty, ?_, exists_succeeds lists below (pairLength _ _)⟩
    have sameEmpty : found.isEmpty = paths.isEmpty := by
      have lengths := congrArg List.isEmpty projected
      simpa only [List.isEmpty_map] using lengths
    rw [sameEmpty, ← Table.exists_path_iff]
    constructor
    · intro nonempty
      obtain ⟨⟨start, stops, goal⟩, member⟩ : ∃ path, path ∈ paths := by
        cases paths with
        | nil => cases nonempty
        | cons path rest => exact ⟨path, List.mem_cons_self ..⟩
      obtain ⟨admitted, path⟩ := (mem_iff _ _ _).1 member
      have sameEnds : head = start ∧ tail = goal := by
        simpa [Pattern.admits, Term.admits] using admitted
      exact ⟨stops, sameEnds.1 ▸ sameEnds.2 ▸ path⟩
    · rintro ⟨stops, path⟩
      have member := (mem_iff head stops tail).2 ⟨by simp [Pattern.admits, Term.admits], path⟩
      cases paths with
      | nil => cases member
      | cons path rest => rfl

end Rule.Closes

/-! ## Two ways to one place -/

namespace Routes

/-- From `a` to `d` one can go through `b` or through `c`. -/
def crossroads : State where
  declarations := #[]
  database :=
    ⟨[(stretch, ⟨some 2, [[.symbol "a", .symbol "b"], [.symbol "a", .symbol "c"],
      [.symbol "b", .symbol "d"], [.symbol "c", .symbol "d"]]⟩)]⟩
  journal := []

theorem linked_crossroads_iff {first last : Value} :
    (crossroads.table stretch).Linked first last ↔
      (first = .symbol "a" ∧ (last = .symbol "b" ∨ last = .symbol "c")) ∨
        ((first = .symbol "b" ∨ first = .symbol "c") ∧ last = .symbol "d") := by
  have stored : (crossroads.table stretch).tuples =
      [[.symbol "a", .symbol "b"], [.symbol "a", .symbol "c"], [.symbol "b", .symbol "d"],
        [.symbol "c", .symbol "d"]] := rfl
  simp only [Table.Linked, stored, List.mem_cons, List.cons.injEq, and_true, List.not_mem_nil,
    or_false]
  tauto

theorem acyclic_crossroads : (crossroads.table stretch).Acyclic := by
  refine Table.acyclic_of_rank
    (fun value => if value = .symbol "a" then 0 else if value = .symbol "d" then 2 else 1) ?_
  intro first last linked
  rcases linked_crossroads_iff.1 linked with ⟨rfl, rfl | rfl⟩ | ⟨rfl | rfl, rfl⟩ <;> decide

/-- No path begins at `d`. -/
theorem not_path_crossroads {stops : List Value} {last : Value} :
    ¬(crossroads.table stretch).Path (.symbol "d") stops last := by
  intro path
  cases path with
  | direct linked => simp [linked_crossroads_iff] at linked
  | onward linked _ => simp [linked_crossroads_iff] at linked

theorem path_crossroads_iff {stops : List Value} :
    (crossroads.table stretch).Path (.symbol "a") stops (.symbol "d") ↔
      stops = [.symbol "b"] ∨ stops = [.symbol "c"] := by
  have between : ∀ next : Value, next = .symbol "b" ∨ next = .symbol "c" →
      (crossroads.table stretch).Linked (.symbol "a") next ∧
        (crossroads.table stretch).Linked next (.symbol "d") :=
    fun next isNext =>
      ⟨linked_crossroads_iff.2 (.inl ⟨rfl, isNext⟩), linked_crossroads_iff.2 (.inr ⟨isNext, rfl⟩)⟩
  constructor
  · intro path
    cases path with
    | direct linked => simp [linked_crossroads_iff] at linked
    | @onward _ next _ stops linked rest =>
        have isNext : next = .symbol "b" ∨ next = .symbol "c" := by
          simpa [linked_crossroads_iff] using linked
        cases rest with
        | direct => simpa using isNext
        | onward later others =>
            rcases isNext with rfl | rfl <;> simp [linked_crossroads_iff] at later <;>
              exact absurd (later ▸ others) not_path_crossroads
  · rintro (rfl | rfl)
    · exact .onward (between _ (.inl rfl)).1 (.direct (between _ (.inl rfl)).2)
    · exact .onward (between _ (.inr rfl)).1 (.direct (between _ (.inr rfl)).2)

end Routes

/-- The two ways from `a` to `d` give the same answer twice. -/
theorem Rule.Closes.query_closure_crossroads :
    Routes.route.Closes Routes.stretch ∧
    (Routes.crossroads.table Routes.stretch).Binary ∧
    (Routes.crossroads.table Routes.stretch).Acyclic ∧
    ∃ answers : List Pattern,
      (∃ enough, ∀ allowed, enough ≤ allowed → ∀ wanted,
        (((RuleQuery.mk Routes.route [.value (.symbol "a"), .wildcard]).enumerate
            Routes.crossroads).1.take allowed wanted
          ((RuleQuery.mk Routes.route [.value (.symbol "a"), .wildcard]).enumerate
            Routes.crossroads).2).1 = .upTo wanted answers) ∧
      answers.count [.value (.symbol "a"), .value (.symbol "d")] = 2 := by
  have closes : Routes.route.Closes Routes.stretch := ⟨rfl, rfl, rfl, rfl⟩
  have binary : (Routes.crossroads.table Routes.stretch).Binary := ⟨by decide, by decide⟩
  have fixed : (Routes.crossroads.table Routes.stretch).arity = some 2 := rfl
  obtain ⟨_, _, ⟨answers, batches, _, counted, _⟩, _⟩ :=
    closes.query_closure fixed binary Routes.acyclic_crossroads (Routes.route_below _)
      (.value (.symbol "a")) .wildcard
  obtain ⟨ways, distinct, mem_iff, count⟩ := counted (.symbol "a") (.symbol "d") rfl
  have same : ways.Perm [[.symbol "b"], [.symbol "c"]] := by
    refine (List.perm_ext_iff_of_nodup distinct (by decide)).2 fun stops => ?_
    rw [mem_iff, Routes.path_crossroads_iff]
    simp
  exact ⟨closes, binary, Routes.acyclic_crossroads, answers, batches, count.trans same.length_eq⟩

end GroundLogic
