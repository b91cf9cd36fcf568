import GroundLogic.Proofs.Closure.Paths
import GroundLogic.Proofs.Solutions.Batches

/-!
# One round of the closure rule

There is a path where there is a link, or a link and a path from its end.  The body of this rule
takes one link and calls the rule again for what follows.  What one round gives is listed here, for
a caller that looks at the two parameters only (`exists_lists_body`): it is a pass over the paths
that begin with a link which agrees with the environment.
-/

namespace GroundLogic

/-- The rule says that there is a path along one link, or along one link and a path from its end;
the value between is a local variable. -/
structure Rule.Closes (edge : Relation) (rule : Rule) : Prop where
  arity : rule.template.arity = 2
  via : rule.template.locals.length = 1
  inner : rule.template.inner = []
  body : rule.template.body =
    .disj (.fact edge [.slot 0, .slot 1])
      (.conj (.fact edge [.slot 0, .slot 2]) (.call .self [.slot 2, .slot 1]))

/-! ## Binding a pair of variables -/

namespace Environment

variable {env extended : Environment}

/-- Binds two variables, one after the other. -/
def bindPair (env : Environment) (first : Variable) (head : Value) (last : Variable)
    (tail : Value) : Option Environment :=
  (env.bind first head).bind fun middle => middle.bind last tail

theorem bind_of_agreesWith {unknown : Variable} {value : Value}
    (agrees : env.agreesWith (unknown, value) = true) :
    ∃ extended, env.bind unknown value = some extended := by
  refine Option.ne_none_iff_exists'.1 fun refused => ?_
  obtain ⟨known, found, different⟩ := bind_eq_none_iff.1 refused
  simp only [agreesWith, found, decide_eq_true_eq] at agrees
  exact different agrees

theorem bind_of_not_agreesWith {unknown : Variable} {value : Value}
    (disagrees : env.agreesWith (unknown, value) = false) : env.bind unknown value = none := by
  rw [bind_eq_none_iff]
  simp only [agreesWith] at disagrees
  split at disagrees
  · next known found => exact ⟨known, found, of_decide_eq_false disagrees⟩
  · cases disagrees

end Environment

namespace Pattern

theorem unify_pair (first last : Variable) (head tail : Value) (env : Environment) :
    unify [.var first, .var last] [head, tail] env = env.bindPair first head last tail := by
  simp only [unify, Term.unify, Environment.bindPair]
  cases env.bind first head with
  | none => rfl
  | some middle =>
      simp only [Option.bind_some]
      cases middle.bind last tail <;> rfl

/-- A fact about two variables goes through the links. -/
theorem answers_pair {table : Table} (binary : table.Binary) (first last : Variable)
    (env : Environment) :
    answers [.var first, .var last] (narrow env [.var first, .var last]) env table.tuples =
      table.links.filterMap fun link => env.bindPair first link.1 last link.2 := by
  rw [answers, binary.tuples_eq, List.filterMap_map]
  apply List.filterMap_congr
  intro link _
  simp only [Function.comp_apply, ← unify_pair]
  apply Option.ext
  intro extended
  rw [answer?_narrow_eq_some_iff]
  exact and_iff_right rfl

end Pattern

/-! ## Looking at an answer -/

/-- Who looks at an answer that grew out of the environment sees no more than the values of the two
variables, and what is seen of values that disagree with the environment is nothing. -/
structure Sees {Result : Type} (env : Environment) (first last : Variable)
    (see : Environment → Option Result) (shown : Value → Value → Option Result) : Prop where
  seen : ∀ head tail answer, answer.Extends env → answer.get? first = some head →
    answer.get? last = some tail → see answer = shown head tail
  unseen : ∀ head tail, env.agreesWith (last, tail) = false → shown head tail = none

namespace Sees

variable {Result : Type} {env middle : Environment} {first last : Variable}
  {see : Environment → Option Result} {shown : Value → Value → Option Result}

/-- What is seen once the first variable is bound and the second is bound last. -/
theorem bind_last (sees : Sees env first last see shown) {head : Value}
    (extension : middle.Extends env) (bound : middle.get? first = some head)
    (unchanged : middle.get? last = env.get? last) (different : last ≠ first) (tail : Value) :
    (middle.bind last tail).bind see = shown head tail := by
  have sameAgrees : middle.agreesWith (last, tail) = env.agreesWith (last, tail) := by
    simp only [Environment.agreesWith, unchanged]
  cases agrees : env.agreesWith (last, tail) with
  | false =>
      rw [agrees] at sameAgrees
      rw [Environment.bind_of_not_agreesWith sameAgrees, sees.unseen head tail agrees]
      rfl
  | true =>
      rw [agrees] at sameAgrees
      obtain ⟨answer, success⟩ := Environment.bind_of_agreesWith sameAgrees
      rw [success, Option.bind_some]
      refine sees.seen head tail answer ((Environment.extends_of_bind success).trans extension) ?_
        ?_
      · rw [Environment.get?_of_bind success, if_neg different, bound]
      · rw [Environment.get?_of_bind success, if_pos rfl]

theorem bindPair (sees : Sees env first last see shown) (different : last ≠ first)
    (head tail : Value) :
    (env.bindPair first head last tail).bind see =
      if env.agreesWith (first, head) then shown head tail else none := by
  rw [Environment.bindPair]
  cases agrees : env.agreesWith (first, head) with
  | false => rw [Environment.bind_of_not_agreesWith agrees]; rfl
  | true =>
      obtain ⟨middle, success⟩ := Environment.bind_of_agreesWith agrees
      rw [success, Option.bind_some, if_pos rfl]
      refine sees.bind_last (Environment.extends_of_bind success) ?_ ?_ different tail
      · rw [Environment.get?_of_bind success, if_pos rfl]
      · rw [Environment.get?_of_bind success, if_neg different.symm]

end Sees

namespace Rule.Closes

variable {rule : Rule} {edge : Relation}

theorem parameters_eq (closes : rule.Closes edge) (base : Nat) :
    rule.parameters base = [⟨base⟩, ⟨base + 1⟩] := by
  simp only [parameters, Rule.arity, closes.arity]
  rfl

theorem body_eq (closes : rule.Closes edge) (base : Nat) :
    rule.body base =
      .disj (.fact edge [.var ⟨base⟩, .var ⟨base + 1⟩])
        (.conj (.fact edge [.var ⟨base⟩, .var ⟨base + 2⟩])
          (.call rule [.var ⟨base + 2⟩, .var ⟨base + 1⟩])) := by
  have frame : rule.frame base = [⟨base⟩, ⟨base + 1⟩, ⟨base + 2⟩] := by
    simp only [Rule.frame, Template.frameSize, closes.arity, closes.via]
    rfl
  simp only [Rule.body, closes.body, Rule.scope, frame]
  rfl

end Rule.Closes

/-! ## The round -/

/-- Where the first argument is known, a call goes through these paths in order. -/
def Rule.Continues (rule : Rule) (database : Database) (first : Value)
    (tails : List (List Value × Value)) : Prop :=
  ∀ (env : Environment) (start last : Term), start.narrow env = .value first →
    Goal.Lists database (.call rule [start, last]) env
      (tails.filterMap fun tail => last.unify env tail.2)

/-- The links that agree with the value of a variable, if it has one. -/
def Environment.liveLinks (env : Environment) (first : Variable) (links : List (Value × Value)) :
    List (Value × Value) :=
  links.filter fun link => env.agreesWith (first, link.1)

section Round

variable {Result : Type} {env : Environment} {first last via : Variable}
  {see : Environment → Option Result} {shown : Value → Value → Option Result}
  {links : List (Value × Value)} {tails : Value → List (List Value × Value)}

/-- The answers of the conjunction for one link: what comes after it, at its end. -/
private def branch? (env : Environment) (first last via : Variable)
    (tails : Value → List (List Value × Value)) (link : Value × Value) :
    Option (Environment × List Environment) :=
  (env.bindPair first link.1 via link.2).map fun middle =>
    (middle, (tails link.2).filterMap fun tail => middle.bind last tail.2)

private theorem of_branch? {link : Value × Value} {branch : Environment × List Environment}
    (found : branch? env first last via tails link = some branch) :
    env.agreesWith (first, link.1) = true ∧ branch.1.Extends env ∧
      branch.1.get? via = some link.2 ∧
      (first ≠ via → branch.1.get? first = some link.1) ∧
      (last ≠ first → last ≠ via → branch.1.get? last = env.get? last) ∧
      branch.2 = (tails link.2).filterMap fun tail => branch.1.bind last tail.2 := by
  obtain ⟨middle, bound, rfl⟩ := Option.map_eq_some_iff.1 found
  obtain ⟨early, firstBound, viaBound⟩ := Option.bind_eq_some_iff.1 bound
  refine ⟨?_, (Environment.extends_of_bind viaBound).trans (Environment.extends_of_bind firstBound),
    ?_, fun different => ?_, fun notFirst notVia => ?_, rfl⟩
  · cases agrees : env.agreesWith (first, link.1) with
    | true => rfl
    | false =>
        rw [Environment.bind_of_not_agreesWith agrees] at firstBound
        cases firstBound
  · rw [Environment.get?_of_bind viaBound, if_pos rfl]
  · rw [Environment.get?_of_bind viaBound, if_neg different.symm,
      Environment.get?_of_bind firstBound, if_pos rfl]
  · rw [Environment.get?_of_bind viaBound, if_neg notVia.symm,
      Environment.get?_of_bind firstBound, if_neg notFirst.symm]

private theorem branch?_eq_none (unbound : env.get? via = none) (different : first ≠ via)
    {link : Value × Value} (missing : branch? env first last via tails link = none) :
    env.agreesWith (first, link.1) = false := by
  cases agrees : env.agreesWith (first, link.1) with
  | false => rfl
  | true =>
      obtain ⟨middle, bound⟩ := Environment.bind_of_agreesWith agrees
      have still : middle.agreesWith (via, link.2) = true := by
        simp only [Environment.agreesWith, Environment.get?_of_bind bound, if_neg different,
          unbound]
      obtain ⟨later, viaBound⟩ := Environment.bind_of_agreesWith still
      simp only [branch?, Environment.bindPair, bound, Option.bind_some, viaBound,
        Option.map_some] at missing
      cases missing

/-- Seen from outside, the round is a pass over the paths that begin with a live link. -/
private theorem filterMap_round (sees : Sees env first last see shown)
    (unbound : env.get? via = none) (lastFirst : last ≠ first) (lastVia : last ≠ via)
    (firstVia : first ≠ via) :
    ((links.filterMap fun link => env.bindPair first link.1 last link.2) ++
        (links.filterMap (branch? env first last via tails)).flatMap Prod.snd).filterMap see =
      (trails (env.liveLinks first links) tails).filterMap fun trail =>
        shown trail.1 trail.2.2 := by
  rw [trails, List.filterMap_append, List.filterMap_append]
  congr 1
  · rw [List.filterMap_filterMap, List.filterMap_map, Environment.liveLinks,
      List.filterMap_filter]
    exact List.filterMap_congr fun link _ => sees.bindPair lastFirst link.1 link.2
  · rw [Environment.liveLinks]
    induction links with
    | nil => rfl
    | cons link rest inductionHypothesis =>
        rw [List.filterMap_cons]
        cases found : branch? env first last via tails link with
        | none =>
            rw [List.filter_cons, branch?_eq_none unbound firstVia found]
            exact inductionHypothesis
        | some branch =>
            obtain ⟨agrees, extension, _, firstBound, unchanged, answers⟩ := of_branch? found
            rw [List.filter_cons, agrees]
            simp only [if_true, List.flatMap_cons, List.filterMap_append, inductionHypothesis,
              answers, List.filterMap_filterMap, List.filterMap_map]
            congr 1
            exact List.filterMap_congr fun tail _ => sees.bind_last extension
              (firstBound firstVia) (unchanged lastFirst lastVia) lastFirst tail.2

end Round

/-- The answers of the body, in an environment that leaves the value between open. -/
theorem Rule.Closes.exists_lists_body {rule : Rule} {edge : Relation} {database : Database}
    (closes : rule.Closes edge) (binary : (database.table edge).Binary) {base : Nat}
    {env : Environment} (unbound : env.get? ⟨base + 2⟩ = none)
    {tails : Value → List (List Value × Value)}
    (later : ∀ link ∈ env.liveLinks ⟨base⟩ (database.table edge).links,
      rule.Continues database link.2 (tails link.2)) :
    ∃ found, Goal.Lists database (rule.body base) env found ∧
      ∀ {Result : Type} {see : Environment → Option Result}
        {shown : Value → Value → Option Result}, Sees env ⟨base⟩ ⟨base + 1⟩ see shown →
          found.filterMap see =
            (trails (env.liveLinks ⟨base⟩ (database.table edge).links) tails).filterMap
              fun trail => shown trail.1 trail.2.2 := by
  have firstVia : (⟨base⟩ : Variable) ≠ ⟨base + 2⟩ := by simp
  have lastFirst : (⟨base + 1⟩ : Variable) ≠ ⟨base⟩ := by simp
  have lastVia : (⟨base + 1⟩ : Variable) ≠ ⟨base + 2⟩ := by simp
  let branches := (database.table edge).links.filterMap
    (branch? env ⟨base⟩ ⟨base + 1⟩ ⟨base + 2⟩ tails)
  have heads : branches.map Prod.fst =
      (database.table edge).links.filterMap fun link =>
        env.bindPair ⟨base⟩ link.1 ⟨base + 2⟩ link.2 := by
    rw [List.map_filterMap]
    refine List.filterMap_congr fun link _ => ?_
    rw [branch?, Option.map_map]
    exact Option.map_id'
  have first : Goal.Lists database (.fact edge [.var ⟨base⟩, .var ⟨base + 2⟩]) env
      (branches.map Prod.fst) := by
    rw [heads, ← Pattern.answers_pair binary]
    exact .fact
  rw [closes.body_eq]
  refine ⟨_, .disj .fact (.conj first fun branch member => ?_), fun sees => ?_⟩
  · obtain ⟨link, stored, found⟩ := List.mem_filterMap.1 member
    obtain ⟨agrees, _, viaBound, _, _, answers⟩ := of_branch? found
    rw [answers]
    refine later link (List.mem_filter.2 ⟨stored, agrees⟩) branch.1 _ _ ?_
    simp only [Term.narrow, viaBound]
  · rw [Pattern.answers_pair binary]
    exact filterMap_round sees unbound lastFirst lastVia firstVia

end GroundLogic
