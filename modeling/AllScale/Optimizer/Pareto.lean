import Mathlib.Data.List.Sort
import AllScale.Lib.OrderedSet
import AllScale.Lib.Outcome

/-!
# The best configuration

The optimizer keeps what it has measured for every number of nodes. `get_best` sorts these entries
by load, by time and by energy, collects a frontier of entries on the way, and returns the
configuration of a random one.
-/

namespace AllScale

open Transition

/-! ## Random elements -/

/-- Why no configuration is returned. -/
inductive DrawFault where
  /-- The assertion of `random_element` fails. -/
  | emptyContainer
  /-- The container has more elements than there are random numbers. -/
  | divisionByZero
  /-- The random numbers are used up. -/
  | noDraw
  deriving DecidableEq

/-- `RAND_MAX`. -/
def randMax : Nat := 0x7fffffff

/-- The loop of `random_element`, over the results of `std::rand`. -/
def randomIndex (n divisor : Nat) : (draws : List Nat) → Option (Fin n)
  | [] => none
  | draw :: draws =>
    let k := draw / divisor
    if inside : k < n then some ⟨k, inside⟩ else randomIndex n divisor draws

/-- `random_element`, with the results of `std::rand`. -/
def randomElement {α : Type} (container : List α) (draws : List Nat) : Except DrawFault α :=
  let n := container.length
  if n = 0 then .error .emptyContainer
  else
    let divisor := randMax / n
    if divisor = 0 then .error .divisionByZero
    else
      match randomIndex n divisor draws with
      | some k => .ok (container.get k)
      | none => .error .noDraw

/-- A computation ends with a value that meets `post`, or fails for another reason than an empty
container. -/
abbrev Draws {α : Type} (post : α → Prop) : Except DrawFault α → Prop :=
  Ensures (· ≠ .emptyContainer) post

/-- Of a container that is not empty an element is drawn. -/
theorem draws_randomElement {α : Type} {container : List α} (nonempty : container ≠ [])
    (draws : List Nat) : Draws (· ∈ container) (randomElement container draws) := by
  have length : container.length ≠ 0 := fun empty => nonempty (List.length_eq_zero_iff.mp empty)
  unfold randomElement
  simp only [if_neg length]
  split
  · exact DrawFault.noConfusion
  · split
    · exact List.get_mem _ _
    · exact DrawFault.noConfusion

/-! ## Entries -/

/-- `ino_knobs_t`. -/
structure InoKnobs where
  /-- `u_nodes`. -/
  uNodes : Nat
  deriving DecidableEq

/-- `ino_knobs_cmp_t`. -/
def InoKnobs.less (lhs rhs : InoKnobs) : Bool := lhs.uNodes < rhs.uNodes

/-- `pareto_entry_t`, for a type of numbers. -/
structure ParetoEntry (F : Type) where
  /-- `u_at_tick`. -/
  uAtTick : Nat
  /-- `c_knobs`. -/
  cKnobs : InoKnobs
  /-- `v_load`. -/
  vLoad : List F
  /-- `v_time`. -/
  vTime : List F
  /-- `v_energy`. -/
  vEnergy : List F
  deriving DecidableEq

namespace ParetoEntry

variable {F : Type} [NatCast F] [Add F] [Div F] [LT F] [DecidableLT F]

/-- The average of measurements over the nodes of a configuration. -/
def average (self : ParetoEntry F) (measure : List F) : F :=
  measure.foldl (· + ·) ((0 : Nat) : F) / ((self.cKnobs.uNodes : Nat) : F)

/-- `average_load`. -/
def averageLoad (self : ParetoEntry F) : F := self.average self.vLoad

/-- `average_time`. -/
def averageTime (self : ParetoEntry F) : F := self.average self.vTime

/-- `average_energy`. -/
def averageEnergy (self : ParetoEntry F) : F := self.average self.vEnergy

/-- `CompareParetoLoad`. -/
def compareParetoLoad (lhs rhs : ParetoEntry F) : Bool := lhs.averageLoad > rhs.averageLoad

/-- `CompareParetoTime`. -/
def compareParetoTime (lhs rhs : ParetoEntry F) : Bool := lhs.averageTime < rhs.averageTime

/-- `CompareParetoEnergy`. -/
def compareParetoEnergy (lhs rhs : ParetoEntry F) : Bool := lhs.averageEnergy < rhs.averageEnergy

/-- One of the three comparisons in `operator<`, of the first `count` measurements, and the one that
comes after it; `beyond` is what is read beyond the end of a vector. -/
def lessMeasure (beyond : F) (count : Nat) (lhs rhs : List F) (next : Bool) : Bool :=
  let allLt := (List.range count).all fun i => lhs.getD i beyond < rhs.getD i beyond
  let anyGt := (List.range count).any fun i => lhs.getD i beyond > rhs.getD i beyond
  if allLt then true else if anyGt then false else next

/-- `operator<`. -/
def less (beyond : F) (lhs rhs : ParetoEntry F) : Bool :=
  let uNodes := lhs.cKnobs.uNodes
  if uNodes < rhs.cKnobs.uNodes then true
  else if uNodes > rhs.cKnobs.uNodes then false
  else
    lessMeasure beyond uNodes lhs.vLoad rhs.vLoad <|
      lessMeasure beyond uNodes lhs.vTime rhs.vTime <|
        lessMeasure beyond lhs.vLoad.length lhs.vEnergy rhs.vEnergy <|
          lhs.uAtTick < rhs.uAtTick

end ParetoEntry

/-! ## The frontier -/

/-- `std::sort`, which does not determine the order of equivalent elements. -/
structure StdSort (α : Type) where
  /-- The sorted list. -/
  sort : (α → α → Bool) → List α → List α
  /-- Sorting is a permutation. -/
  perm : ∀ (less : α → α → Bool) (l : List α), (sort less l).Perm l

/-- Sorting by insertion, as `std::sort` may do it. -/
def StdSort.insertion {α : Type} : StdSort α where
  sort less l := l.insertionSort fun a b => less b a = false
  perm _ l := List.perm_insertionSort _ l

namespace ParetoEntry

variable {F : Type} [NatCast F] [Add F] [Div F] [LT F] [DecidableLT F]

/-- `comparators`. -/
def comparators : List (ParetoEntry F → ParetoEntry F → Bool) :=
  [compareParetoLoad, compareParetoTime, compareParetoEnergy]

/-- `pareto_eligible`. -/
def paretoEligible (paretoFrontier : List (ParetoEntry F)) (entry : ParetoEntry F)
    (one two : ParetoEntry F → ParetoEntry F → Bool) : Bool :=
  paretoFrontier.reverse.all fun it => !one it entry || !two it entry

/-- The round of the loop in `get_best` for a comparator: the sorted entries and the frontier. -/
def frontierRound (sort : StdSort (ParetoEntry F)) (beyond : F)
    (state : List (ParetoEntry F) × List (ParetoEntry F)) (index : Nat) :
    List (ParetoEntry F) × List (ParetoEntry F) :=
  let comparators : List (ParetoEntry F → ParetoEntry F → Bool) := comparators
  let numComparators := comparators.length
  let comparator := comparators.getD index compareParetoLoad
  let comp1 := comparators.getD ((index + 1) % numComparators) compareParetoLoad
  let comp2 := comparators.getD ((index + 1) % numComparators) compareParetoLoad
  match sort.sort comparator state.1 with
  | [] => ([], state.2)
  | best :: others =>
    let sorted := best :: others
    let paretoFrontier := OrderedSet.insert (less beyond) best state.2
    (sorted, OrderedSet.insertAdmitted (less beyond)
      (fun paretoFrontier it => paretoEligible paretoFrontier it comp1 comp2) sorted paretoFrontier)

/-- The frontier that `get_best` collects. -/
def frontier (sort : StdSort (ParetoEntry F)) (beyond : F) (vPast : List (ParetoEntry F)) :
    List (ParetoEntry F) :=
  ([0, 1, 2].foldl (frontierRound sort beyond) (vPast, [])).2

/-- `internode_optimizer_t::get_best`, for the entries of the history. -/
def getBest (sort : StdSort (ParetoEntry F)) (beyond : F) (vPast : List (ParetoEntry F))
    (draws : List Nat) : Except DrawFault InoKnobs := do
  return (← randomElement (frontier sort beyond vPast) draws).cKnobs

/-! ## Draws from the frontier -/

variable {sort : StdSort (ParetoEntry F)} {beyond : F} {vPast entries : List (ParetoEntry F)}

/-- A round permutes the entries, adds some of them to the frontier and removes none. -/
theorem frontierRound_spec (state : List (ParetoEntry F) × List (ParetoEntry F)) (index : Nat) :
    (frontierRound sort beyond state index).1.Perm state.1 ∧
      (∀ entry ∈ (frontierRound sort beyond state index).2, entry ∈ state.1 ∨ entry ∈ state.2) ∧
      (∀ entry ∈ state.2, entry ∈ (frontierRound sort beyond state index).2) ∧
      (state.1 ≠ [] → (frontierRound sort beyond state index).2 ≠ []) := by
  unfold frontierRound
  dsimp only
  have perm := sort.perm (comparators.getD index compareParetoLoad) state.1
  cases sorted : sort.sort (comparators.getD index compareParetoLoad) state.1 with
  | nil =>
    rw [sorted] at perm
    exact ⟨perm, fun _ found => Or.inr found, fun _ found => found,
      fun nonempty => absurd perm.nil_eq.symm nonempty⟩
  | cons best others =>
    rw [sorted] at perm
    refine ⟨perm, fun entry found => ?_, fun entry found => ?_, fun _ => ?_⟩
    · rcases OrderedSet.mem_of_mem_insertAdmitted found with found | found
      · exact Or.inl (perm.mem_iff.mp found)
      · rcases OrderedSet.mem_of_mem_insert found with rfl | found
        · exact Or.inl (perm.mem_iff.mp List.mem_cons_self)
        · exact Or.inr found
    · exact OrderedSet.mem_insertAdmitted_of_mem (OrderedSet.mem_insert_of_mem found)
    · obtain ⟨entry, found⟩ := List.exists_mem_of_ne_nil _
        (OrderedSet.insert_ne_nil (less beyond) best state.2)
      exact List.ne_nil_of_mem (OrderedSet.mem_insertAdmitted_of_mem found)

/-- The frontier consists of entries of the history, and it is empty only when the history is. -/
theorem frontier_spec (sort : StdSort (ParetoEntry F)) (beyond : F) (vPast : List (ParetoEntry F)) :
    (∀ entry ∈ frontier sort beyond vPast, entry ∈ vPast) ∧
      (vPast ≠ [] → frontier sort beyond vPast ≠ []) := by
  have rounds (indices : List Nat) (state : List (ParetoEntry F) × List (ParetoEntry F)) :
      (∀ entry ∈ (indices.foldl (frontierRound sort beyond) state).2,
        entry ∈ state.1 ∨ entry ∈ state.2) ∧
      ∀ entry ∈ state.2, entry ∈ (indices.foldl (frontierRound sort beyond) state).2 := by
    induction indices generalizing state with
    | nil => exact ⟨fun _ found => Or.inr found, fun _ found => found⟩
    | cons index indices ih =>
      obtain ⟨perm, added, kept, -⟩ := @frontierRound_spec F _ _ _ _ _ sort beyond state index
      obtain ⟨later, stays⟩ := ih (frontierRound sort beyond state index)
      refine ⟨fun entry found => ?_, fun entry found => stays entry (kept entry found)⟩
      rcases later entry found with found | found
      · exact Or.inl (perm.mem_iff.mp found)
      · exact added entry found
  constructor
  · intro entry found
    exact ((rounds [0, 1, 2] (vPast, [])).1 entry found).resolve_right List.not_mem_nil
  · intro nonempty
    have first := (@frontierRound_spec F _ _ _ _ _ sort beyond (vPast, []) 0).2.2.2 nonempty
    obtain ⟨entry, found⟩ := List.exists_mem_of_ne_nil _ first
    exact List.ne_nil_of_mem ((rounds [1, 2] _).2 entry found)

/-- From a history that is not empty the configuration of an entry is returned. -/
theorem draws_getBest (filled : vPast ≠ []) (draws : List Nat) :
    Draws (fun knobs => ∃ entry ∈ vPast, knobs = entry.cKnobs)
      (getBest sort beyond vPast draws) := by
  obtain ⟨inside, nonempty⟩ := frontier_spec sort beyond vPast
  exact (draws_randomElement (nonempty filled) draws).bind fun entry found =>
    .pure ⟨entry, inside entry found, rfl⟩

end ParetoEntry

end AllScale
