import GroundLogic.Relation
import Mathlib.Data.Finset.Card
import Mathlib.Data.List.Nodup
import Mathlib.Logic.Relation

/-!
# Paths along a binary relation

The tuples of a binary relation are the links of a graph on values.  A path is given by its ends and
the values that it passes on the way, so two paths with the same ends differ in what they pass.
When no path leads back to where it began, values can be gone through in the direction of the links
(`Acyclic.wellFounded`), and the paths from a value can be listed one link at a time (`trails`).
-/

namespace GroundLogic

namespace Table

variable {table : Table}

/-- One value is linked to another if they are a stored tuple. -/
def Linked (table : Table) (first last : Value) : Prop :=
  [first, last] ∈ table.tuples

/-- A path of at least one link, with the values between its ends. -/
inductive Path (table : Table) : Value → List Value → Value → Prop
  | direct {first last : Value} (linked : table.Linked first last) : Path table first [] last
  | onward {first next last : Value} {stops : List Value} (linked : table.Linked first next)
      (rest : Path table next stops last) : Path table first (next :: stops) last

/-- Every tuple is a pair, and no pair is stored twice. -/
structure Binary (table : Table) : Prop where
  pairs : ∀ tuple ∈ table.tuples, tuple.length = 2
  distinct : table.tuples.Nodup

/-- Nothing can be reached from itself. -/
def Acyclic (table : Table) : Prop :=
  ∀ value, ¬ Relation.TransGen table.Linked value value

theorem exists_path_iff {first last : Value} :
    (∃ stops, table.Path first stops last) ↔ Relation.TransGen table.Linked first last := by
  constructor
  · rintro ⟨stops, path⟩
    induction path with
    | direct linked => exact .single linked
    | onward linked _ inductionHypothesis => exact .head linked inductionHypothesis
  · intro reached
    induction reached using Relation.TransGen.head_induction_on with
    | single linked => exact ⟨[], .direct linked⟩
    | head linked _ inductionHypothesis =>
        obtain ⟨stops, path⟩ := inductionHypothesis
        exact ⟨_, .onward linked path⟩

/-! ## The links in order -/

/-- The values of a tuple of length two. -/
def pairOf? : Tuple → Option (Value × Value)
  | [first, last] => some (first, last)
  | _ => none

/-- The links in the order in which they are stored. -/
def links (table : Table) : List (Value × Value) :=
  table.tuples.filterMap pairOf?

theorem pairOf?_eq_some_iff {tuple : Tuple} {link : Value × Value} :
    pairOf? tuple = some link ↔ tuple = [link.1, link.2] := by
  obtain ⟨first, last⟩ := link
  rcases tuple with _ | ⟨head, _ | ⟨second, _ | ⟨third, rest⟩⟩⟩ <;> simp [pairOf?]

theorem mem_links {first last : Value} : (first, last) ∈ table.links ↔ table.Linked first last := by
  simp only [links, List.mem_filterMap, pairOf?_eq_some_iff, Linked]
  constructor
  · rintro ⟨tuple, member, rfl⟩
    exact member
  · exact fun member => ⟨_, member, rfl⟩

theorem Binary.tuples_eq (binary : table.Binary) :
    table.tuples = table.links.map fun link => [link.1, link.2] := by
  obtain ⟨pairs, _⟩ := binary
  simp only [links]
  generalize table.tuples = tuples at pairs
  induction tuples with
  | nil => rfl
  | cons tuple rest inductionHypothesis =>
      have later := inductionHypothesis fun other member =>
        pairs other (List.mem_cons_of_mem _ member)
      obtain ⟨first, last, rfl⟩ := List.length_eq_two.1 (pairs tuple (List.mem_cons_self ..))
      simp only [List.filterMap_cons, pairOf?, List.map_cons]
      exact congrArg _ later

theorem Binary.nodup_links (binary : table.Binary) : table.links.Nodup := by
  have distinct := binary.distinct
  rw [binary.tuples_eq] at distinct
  exact distinct.of_map

/-! ## Going along the links -/

/-- With each link, less can be reached. -/
theorem Acyclic.wellFounded (acyclic : table.Acyclic) :
    WellFounded fun later earlier => table.Linked earlier later := by
  classical
  let reached : Value → Finset Value := fun value =>
    (table.links.map Prod.snd).toFinset.filter (Relation.TransGen table.Linked value)
  refine Subrelation.wf (fun {later earlier} linked => ?_)
    (measure fun value => (reached value).card).wf
  refine Finset.card_lt_card
    (Finset.ssubset_iff_subset_ne.2 ⟨fun value member => ?_, fun same => ?_⟩)
  · rw [Finset.mem_filter] at member ⊢
    exact ⟨member.1, .head linked member.2⟩
  · have member : later ∈ reached earlier := by
      rw [Finset.mem_filter, List.mem_toFinset]
      exact ⟨List.mem_map_of_mem (mem_links.2 linked), .single linked⟩
    rw [← same, Finset.mem_filter] at member
    exact acyclic later member.2

/-- There is no cycle where every link leads upwards. -/
theorem acyclic_of_rank (rank : Value → Nat)
    (upward : ∀ first last, table.Linked first last → rank first < rank last) : table.Acyclic := by
  intro value cycle
  have above : ∀ {first last : Value}, Relation.TransGen table.Linked first last →
      rank first < rank last := by
    intro first last reached
    induction reached with
    | single linked => exact upward _ _ linked
    | tail _ linked inductionHypothesis =>
        exact Nat.lt_trans inductionHypothesis (upward _ _ linked)
  exact Nat.lt_irrefl _ (above cycle)

/-! ## Listing paths -/

/-- All paths from a value, each once: what they pass, and where they lead. -/
structure PathsFrom (table : Table) (first : Value) (tails : List (List Value × Value)) :
    Prop where
  distinct : tails.Nodup
  mem_iff : ∀ stops last, (stops, last) ∈ tails ↔ table.Path first stops last

end Table

/-- The paths that begin with one of these links, when the paths from the ends of the links are
known: first those that are a single link. -/
def trails (links : List (Value × Value)) (tails : Value → List (List Value × Value)) :
    List (Value × List Value × Value) :=
  links.map (fun link => (link.1, [], link.2)) ++
    links.flatMap fun link => (tails link.2).map fun tail => (link.1, link.2 :: tail.1, tail.2)

section Trails

variable {table : Table} {links : List (Value × Value)}
  {tails : Value → List (List Value × Value)}

theorem mem_trails {first last : Value} {stops : List Value} :
    (first, stops, last) ∈ trails links tails ↔
      (stops = [] ∧ (first, last) ∈ links) ∨
        ∃ next rest, stops = next :: rest ∧ (first, next) ∈ links ∧ (rest, last) ∈ tails next := by
  simp only [trails, List.mem_append, List.mem_map, List.mem_flatMap, Prod.exists, Prod.mk.injEq]
  constructor
  · rintro (⟨_, _, member, rfl, rfl, rfl⟩ | ⟨_, next, member, rest, _, tail, rfl, rfl, rfl⟩)
    · exact .inl ⟨rfl, member⟩
    · exact .inr ⟨next, rest, rfl, member, tail⟩
  · rintro (⟨rfl, member⟩ | ⟨next, rest, rfl, member, tail⟩)
    · exact .inl ⟨first, last, member, rfl, rfl, rfl⟩
    · exact .inr ⟨first, next, member, rest, last, tail, rfl, rfl, rfl⟩

theorem nodup_trails (distinct : links.Nodup)
    (each : ∀ link ∈ links, table.PathsFrom link.2 (tails link.2)) :
    (trails links tails).Nodup := by
  rw [trails, List.nodup_append]
  refine ⟨?_, List.nodup_flatMap.2 ⟨fun link member => ?_, ?_⟩, ?_⟩
  · refine distinct.map fun link other same => ?_
    simp only [Prod.mk.injEq, true_and] at same
    exact Prod.ext same.1 same.2
  · refine (each link member).distinct.map fun tail other same => ?_
    simp only [Prod.mk.injEq, List.cons.injEq, true_and] at same
    exact Prod.ext same.1 same.2
  · refine distinct.imp fun {link other} different => ?_
    intro trail here there
    obtain ⟨_, _, rfl⟩ := List.mem_map.1 here
    obtain ⟨_, _, same⟩ := List.mem_map.1 there
    simp only [Prod.mk.injEq, List.cons.injEq] at same
    exact different (Prod.ext same.1.symm same.2.1.1.symm)
  · intro trail short other long same
    obtain ⟨_, _, rfl⟩ := List.mem_map.1 short
    obtain ⟨_, _, inside⟩ := List.mem_flatMap.1 long
    obtain ⟨_, _, rfl⟩ := List.mem_map.1 inside
    exact List.cons_ne_nil _ _ (congrArg (fun trail => trail.2.1) same).symm

theorem mem_trails_iff_path {first last : Value} {stops : List Value}
    (each : ∀ link ∈ links, table.PathsFrom link.2 (tails link.2))
    (whole : ∀ next, (first, next) ∈ links ↔ table.Linked first next) :
    (first, stops, last) ∈ trails links tails ↔ table.Path first stops last := by
  rw [mem_trails]
  constructor
  · rintro (⟨rfl, member⟩ | ⟨next, rest, rfl, member, tail⟩)
    · exact .direct ((whole last).1 member)
    · exact .onward ((whole next).1 member) (((each _ member).mem_iff rest last).1 tail)
  · intro path
    cases path with
    | direct linked => exact .inl ⟨rfl, (whole last).2 linked⟩
    | @onward _ next _ rest linked path =>
        have member := (whole next).2 linked
        exact .inr ⟨next, rest, rfl, member, ((each _ member).mem_iff rest last).2 path⟩

end Trails

end GroundLogic
