import Mathlib.Data.Finset.Card
import AllScale.Lib.Run
import AllScale.Resilience.Component

/-!
# The ring of localities

The localities protect each other in a ring. When the protectee of a locality crashes, the locality
takes its protectee's protectee over, becomes the guard of it and asks it for the next one. Its own
guard is not told: there the pointer to the protectee's protectee goes on naming the crashed
locality.
-/

namespace AllScale

open Transition
open Function (update)

namespace Resilience

variable {W : Type}

/-- The calls of `resilience::reschedule_dispatched_to_dead` from guard to guard, starting at a
locality. A call to a crashed locality is lost; `fuel` bounds the number of calls. -/
def rescheduleRing (alive : Finset Nat) (deadRank : Nat) :
    (fuel : Nat) → (Nat → Resilience W) → (here token : Nat) → Nat → Resilience W
  | 0, nodes, _, _ => nodes
  | fuel + 1, nodes, here, token =>
    if here ∈ alive then
      let rescheduled := (nodes here).rescheduleDispatchedToDead deadRank token
      let nodes := update nodes here rescheduled.self
      match rescheduled.token with
      | none => nodes
      | some token => rescheduleRing alive deadRank fuel nodes rescheduled.self.guardRank token
    else nodes

/-- `resilience::protectee_crashed` at a locality, with the actions it waits for and the calls
around the ring. An action on a crashed locality does not return. -/
def protecteeCrashed (alive : Finset Nat) (nodes : Nat → Resilience W) (here : Nat) :
    Option (Nat → Resilience W) :=
  let deadProtecteeRank := (nodes here).protecteeRank
  let protectee := (nodes here).protecteesProtecteeRank
  if protectee ∈ alive then
    let nodes := update nodes here { nodes here with protecteeRank := protectee }
    let nodes := update nodes protectee ((nodes protectee).setGuard (nodes here).rank)
    let nodes := update nodes here
      { nodes here with protecteesProtecteeRank := (nodes protectee).getProtectee }
    some (rescheduleRing alive deadProtecteeRank ((nodes here).getRunningRanks + 1) nodes here 0)
  else none

/-! ## Rings -/

/-- The localities of a network and those that have not crashed. -/
structure Ring (W : Type) where
  /-- The localities that have not crashed. -/
  alive : Finset Nat
  /-- The components of all localities. -/
  nodes : Nat → Resilience W

/-- The ranks before a rank on the ring, the nearest first. -/
def predecessors (size rank : Nat) : List Nat :=
  (List.range (size - 1)).map fun i => (rank + size - 1 - i) % size

/-- The ranks behind a rank on the ring, the nearest first. -/
def successors (size rank : Nat) : List Nat :=
  (List.range (size - 1)).map fun i => (rank + 1 + i) % size

/-- Every live locality guards its nearest live predecessor and is guarded by its nearest live
successor, and knows its second nearest live predecessor. -/
structure Ring.Repaired (size : Nat) (ring : Ring W) : Prop where
  /-- The protectee is the nearest live predecessor. -/
  protectee : ∀ rank ∈ ring.alive, some (ring.nodes rank).protecteeRank =
    ((predecessors size rank).filter (· ∈ ring.alive))[0]?
  /-- The guard is the nearest live successor. -/
  guard : ∀ rank ∈ ring.alive, some (ring.nodes rank).guardRank =
    ((successors size rank).filter (· ∈ ring.alive))[0]?
  /-- The protectee's protectee is the second nearest live predecessor. -/
  second : ∀ rank ∈ ring.alive, some (ring.nodes rank).protecteesProtecteeRank =
    ((predecessors size rank).filter (· ∈ ring.alive))[1]?

/-- The crash of a locality and its complete recovery, by the locality whose protectee has crashed.
Three localities survive. -/
inductive Ring.Step : Ring W → Nat × Nat → Ring W → Prop
  | crash {s : Ring W} {dead here : Nat} {nodes : Nat → Resilience W} :
      dead ∈ s.alive → here ∈ s.alive → here ≠ dead → (s.nodes here).protecteeRank = dead →
      3 ≤ (s.alive.erase dead).card →
      protecteeCrashed (s.alive.erase dead) s.nodes here = some nodes →
      Step s (dead, here) ⟨s.alive.erase dead, nodes⟩

/-- The ring of a network, whose localities start at given times. -/
def ring (W : Type) (size : Nat) (startTime : Nat → Nat) : System (Ring W) (Nat × Nat) where
  start := ⟨Finset.range size, fun rank => init rank size (startTime rank) false⟩
  step := Ring.Step

/-! ## What a recovery leaves behind -/

/-- Calls around the ring do not touch the pointers to protectees. -/
theorem second_rescheduleRing (alive : Finset Nat) (deadRank fuel : Nat)
    (nodes : Nat → Resilience W) (here token rank : Nat) :
    (rescheduleRing alive deadRank fuel nodes here token rank).protecteesProtecteeRank =
      (nodes rank).protecteesProtecteeRank := by
  induction fuel generalizing nodes here token with
  | zero => rfl
  | succ fuel ih =>
    have kept (token : Nat) :
        (update nodes here ((nodes here).rescheduleDispatchedToDead deadRank token).self
          rank).protecteesProtecteeRank = (nodes rank).protecteesProtecteeRank := by
      by_cases same : rank = here
      · subst same
        rw [Function.update_self]
        rfl
      · rw [Function.update_of_ne same]
    unfold rescheduleRing
    split
    · cases next : ((nodes here).rescheduleDispatchedToDead deadRank token).token with
      | none =>
        simp only [next]
        exact kept token
      | some later =>
        simp only [next]
        rw [ih]
        exact kept token
    · rfl

/-- A recovery leaves the pointer to the protectee's protectee of every other locality as it was. -/
theorem second_protecteeCrashed {alive : Finset Nat} {nodes nodes' : Nat → Resilience W}
    {here rank : Nat} (recovered : protecteeCrashed alive nodes here = some nodes')
    (other : rank ≠ here) :
    (nodes' rank).protecteesProtecteeRank = (nodes rank).protecteesProtecteeRank := by
  unfold protecteeCrashed at recovered
  simp only at recovered
  split at recovered
  · rw [← Option.some.inj recovered, second_rescheduleRing, Function.update_of_ne other]
    by_cases protectee : rank = (nodes here).protecteesProtecteeRank
    · rw [← protectee, Function.update_self, Function.update_of_ne other]
      rfl
    · rw [Function.update_of_ne protectee, Function.update_of_ne other]
  · exact absurd recovered (by simp)

/-- A step back on the ring. -/
theorem back_eq_mod {size rank : Nat} (inside : rank < size) :
    (if rank = 0 then size - 1 else rank - 1) = (rank + size - 1) % size := by
  by_cases first : rank = 0
  · rw [if_pos first, first, Nat.zero_add, Nat.mod_eq_of_lt (by omega)]
  · rw [if_neg first, show rank + size - 1 = rank - 1 + size by omega, Nat.add_mod_right,
      Nat.mod_eq_of_lt (by omega)]

/-- At the start the ring of three localities or more is repaired. -/
theorem repaired_start {size : Nat} (several : 3 ≤ size) (startTime : Nat → Nat) :
    (ring W size startTime).start.Repaired size := by
  -- in the beginning every rank on the ring is alive
  have live (step : Nat → Nat) (steps : List Nat) :
      (steps.map fun i => step i % size).filter (· ∈ Finset.range size) =
        steps.map fun i => step i % size := by
    apply List.filter_eq_self.mpr
    intro other found
    obtain ⟨i, -, rfl⟩ := List.mem_map.mp found
    exact decide_eq_true (Finset.mem_range.mpr (Nat.mod_lt _ (by omega)))
  have before (rank : Nat) : (predecessors size rank).filter (· ∈ Finset.range size) =
      predecessors size rank := live (fun i => rank + size - 1 - i) _
  have behind (rank : Nat) : (successors size rank).filter (· ∈ Finset.range size) =
      successors size rank := live (fun i => rank + 1 + i) _
  refine ⟨fun rank alive => ?_, fun rank alive => ?_, fun rank alive => ?_⟩
  · have inside : rank < size := Finset.mem_range.mp alive
    refine Eq.trans ?_ (congrArg (·[0]?) (before rank)).symm
    show some (if rank = 0 then size - 1 else rank - 1) = _
    rw [back_eq_mod inside]
    simp [predecessors, List.getElem?_range (show 0 < size - 1 by omega)]
  · refine Eq.trans ?_ (congrArg (·[0]?) (behind rank)).symm
    show some ((rank + 1) % size) = _
    simp [successors, List.getElem?_range (show 0 < size - 1 by omega)]
  · have inside : rank < size := Finset.mem_range.mp alive
    have left : (rank + size - 1) % size < size := Nat.mod_lt _ (by omega)
    refine Eq.trans ?_ (congrArg (·[1]?) (before rank)).symm
    show some (if (if rank = 0 then size - 1 else rank - 1) = 0 then size - 1
      else (if rank = 0 then size - 1 else rank - 1) - 1) = _
    rw [back_eq_mod inside, back_eq_mod left]
    have twice : ((rank + size - 1) % size + size - 1) % size = (rank + size - 1 - 1) % size := by
      rw [show (rank + size - 1) % size + size - 1 = (rank + size - 1) % size + (size - 1) by omega,
        Nat.mod_add_mod, show rank + size - 1 + (size - 1) = rank + size - 1 - 1 + size by omega,
        Nat.add_mod_right]
    simp [predecessors, List.getElem?_range (show 1 < size - 1 by omega), twice]

/-- At the start the guard of a locality knows the protectee of the locality as its protectee's
protectee. -/
theorem second_init {size rank : Nat} (inside : rank < size) (startTime startTime' : Nat) :
    (init ((rank + 1) % size) size startTime' false : Resilience W).protecteesProtecteeRank =
      (init rank size startTime false : Resilience W).protecteeRank := by
  have before : (if (rank + 1) % size = 0 then size - 1 else (rank + 1) % size - 1) = rank := by
    by_cases last : rank + 1 = size
    · rw [last, Nat.mod_self, if_pos rfl]
      omega
    · rw [Nat.mod_eq_of_lt (by omega), if_neg (by omega)]
      omega
  unfold init
  simp only [before]

/-- The first recovery leaves the guard of the recovering locality with the crashed one as its
protectee's protectee. -/
theorem not_repaired_of_crash {size : Nat} {startTime : Nat → Nat} {action : Nat × Nat} {s : Ring W}
    (step : Ring.Step (ring W size startTime).start action s) : ¬ s.Repaired size := by
  cases step with
  | @crash dead here nodes living present different protects survivors recovered =>
    intro repaired
    have survivors : 3 ≤ ((Finset.range size).erase dead).card := survivors
    have living : dead ∈ Finset.range size := living
    have inside : here < size := Finset.mem_range.mp present
    rw [Finset.card_erase_of_mem living, Finset.card_range] at survivors
    have stale : (nodes ((here + 1) % size)).protecteesProtecteeRank = dead := by
      rw [second_protecteeCrashed recovered]
      · exact (second_init inside _ _).trans protects
      · by_cases last : here + 1 = size
        · rw [last, Nat.mod_self]
          omega
        · rw [Nat.mod_eq_of_lt (by omega)]
          omega
    have before : (if here = 0 then size - 1 else here - 1) = dead := protects
    have guard : (here + 1) % size ≠ dead := by
      by_cases last : here + 1 = size
      · rw [last, Nat.mod_self]
        split at before <;> omega
      · rw [Nat.mod_eq_of_lt (by omega)]
        split at before <;> omega
    have alive : (here + 1) % size ∈ (Finset.range size).erase dead :=
      Finset.mem_erase.mpr ⟨guard, Finset.mem_range.mpr (Nat.mod_lt _ (by omega))⟩
    have second := repaired.second _ alive
    have second : some (nodes ((here + 1) % size)).protecteesProtecteeRank =
        ((predecessors size ((here + 1) % size)).filter
          (· ∈ (Finset.range size).erase dead))[1]? := second
    rw [stale] at second
    have found := List.mem_of_getElem? second.symm
    have living := (List.mem_filter.mp found).2
    simp at living

/-- Once a locality has crashed, the ring is repaired. -/
def Ring.Recovered (size : Nat) (s : Ring W) : Prop := s.alive.card < size → s.Repaired size

/-- The ring is repaired after every recovery of a run exactly if no locality crashes. -/
theorem repaired_run_iff {size : Nat} {startTime : Nat → Nat} {history : List (Ring W × Nat × Nat)}
    {s : Ring W} (run : (ring W size startTime).Run history s) :
    System.Always (Ring.Recovered size) history s ↔ history = [] := by
  have start : (ring W size startTime).start.alive.card = size := Finset.card_range size
  have never : System.Always (Ring.Recovered size) history s ↔
      System.Meets (fun _ _ => False) history := by
    refine run.always_iff_meets (I := fun s => s = (ring W size startTime).start) rfl
      (fun s same crashed => ?_) (fun _ impossible _ => impossible.elim)
      fun same step recovered => ?_
    · rw [same, start] at crashed
      exact absurd crashed (Nat.lt_irrefl size)
    · subst same
      apply not_repaired_of_crash step
      apply recovered
      cases step with
      | crash living =>
        have fewer := Finset.card_erase_lt_of_mem living
        rwa [start] at fewer
  rw [never]
  cases history with
  | nil => exact ⟨fun _ => rfl, fun _ _ found => absurd found List.not_mem_nil⟩
  | cons taken history =>
    exact ⟨fun nothing => (nothing taken List.mem_cons_self).elim,
      fun nothing => absurd nothing (by simp)⟩

/-- Of four localities the second crashes, and its guard recovers. -/
theorem crash_four : ∃ nodes : Nat → Resilience Nat,
    (ring Nat 4 fun _ => 0).Run [((ring Nat 4 fun _ => 0).start, (1, 2))]
      ⟨(Finset.range 4).erase 1, nodes⟩ := by
  obtain ⟨nodes, recovered⟩ : ∃ nodes, protecteeCrashed ((Finset.range 4).erase 1)
      (ring Nat 4 fun _ => 0).start.nodes 2 = some nodes := ⟨_, rfl⟩
  have crash : Ring.Step (ring Nat 4 fun _ => 0).start (1, 2) ⟨(Finset.range 4).erase 1, nodes⟩ :=
    .crash (by decide) (by decide) (by decide) rfl (by decide) recovered
  exact ⟨nodes, .step .start crash⟩

/-- After the first crash among four localities the ring is not repaired. -/
theorem repaired_run_four : ∃ (history : List (Ring Nat × Nat × Nat)) (s : Ring Nat),
    (ring Nat 4 fun _ => 0).Run history s ∧ history.length = 1 ∧
      (System.Always (Ring.Recovered 4) history s ↔ history = []) := by
  obtain ⟨nodes, run⟩ := crash_four
  exact ⟨_, _, run, rfl, repaired_run_iff run⟩

/-- Of four localities one crashes, and the guard of its guard is not told. -/
theorem not_recovered : ¬ ∀ (history : List (Ring Nat × Nat × Nat)) (s : Ring Nat),
    (ring Nat 4 fun _ => 0).Run history s → s.Recovered 4 := by
  intro claim
  obtain ⟨nodes, run⟩ := crash_four
  have fewer : ((Finset.range 4).erase 1).card < 4 := by decide
  cases run with
  | step before crash => exact not_repaired_of_crash crash (claim _ _ (.step before crash) fewer)

end Resilience

end AllScale
