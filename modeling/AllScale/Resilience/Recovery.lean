import Mathlib.GroupTheory.Perm.Cycle.Concrete
import AllScale.Lib.CycleWalk
import AllScale.Resilience.Ring

/-!
# One recovery

After the crash of a locality its guard repairs the pointers and starts a token, which is passed
from guard to guard. Every locality that it reaches marks the crashed one and compares the token
with the number of localities that it then takes for running. Where the pointers were consistent
before, the token visits every survivor once.
-/

namespace AllScale

open Transition
open Function (update)
open CycleWalk

namespace Resilience

variable {W : Type}

/-- The localities that the calls of `resilience::reschedule_dispatched_to_dead` reach, starting at
one; `none` when there are more than `fuel` calls. -/
def visits (alive : Finset Nat) (deadRank : Nat) :
    (fuel : Nat) → (Nat → Resilience W) → (here token : Nat) → Option (List Nat)
  | 0, _, _, _ => none
  | fuel + 1, nodes, here, token =>
    if here ∈ alive then
      let rescheduled := (nodes here).rescheduleDispatchedToDead deadRank token
      let nodes := update nodes here rescheduled.self
      match rescheduled.token with
      | none => some [here]
      | some token =>
        (visits alive deadRank fuel nodes rescheduled.self.guardRank token).map (here :: ·)
    else some []

/-- The pointers after `resilience::protectee_crashed` at a locality, before the calls around the
ring. -/
def reconnect (alive : Finset Nat) (nodes : Nat → Resilience W) (here : Nat) :
    Option (Nat → Resilience W) :=
  let protectee := (nodes here).protecteesProtecteeRank
  if protectee ∈ alive then
    let nodes := update nodes here { nodes here with protecteeRank := protectee }
    let nodes := update nodes protectee ((nodes protectee).setGuard (nodes here).rank)
    some (update nodes here
      { nodes here with protecteesProtecteeRank := (nodes protectee).getProtectee })
  else none

/-- A recovery consists of the new pointers and the calls around the ring. -/
theorem protecteeCrashed_eq (alive : Finset Nat) (nodes : Nat → Resilience W) (here : Nat) :
    protecteeCrashed alive nodes here = (reconnect alive nodes here).map fun reconnected =>
      rescheduleRing alive (nodes here).protecteeRank ((reconnected here).getRunningRanks + 1)
        reconnected here 0 := by
  unfold protecteeCrashed reconnect
  dsimp only
  split <;> rfl

/-! ## The token -/

/-- The token is passed on as long as more localities are taken for running than it has visited. -/
theorem token_rescheduleDispatchedToDead (self : Resilience W) (deadRank token : Nat) :
    (self.rescheduleDispatchedToDead deadRank token).token =
      if (self.rankRunning.set deadRank false).count true > token + 1 then some (token + 1)
      else none := rfl

/-- A call at a live locality, when the token is not passed on. -/
theorem call_last {alive : Finset Nat} {deadRank here token : Nat} {nodes : Nat → Resilience W}
    (fuel : Nat) (living : here ∈ alive)
    (last : ((nodes here).rankRunning.set deadRank false).count true = token + 1) :
    visits alive deadRank (fuel + 1) nodes here token = some [here] ∧
      rescheduleRing alive deadRank (fuel + 1) nodes here token =
        update nodes here ((nodes here).rescheduleDispatchedToDead deadRank 0).self := by
  have stops : ((nodes here).rescheduleDispatchedToDead deadRank token).token = none := by
    rw [token_rescheduleDispatchedToDead, if_neg (by omega)]
  unfold visits rescheduleRing
  simp only [if_pos living, stops]
  exact ⟨trivial, rfl⟩

/-- A call at a live locality, when the token is passed on. -/
theorem call_next {alive : Finset Nat} {deadRank here token : Nat} {nodes : Nat → Resilience W}
    (fuel : Nat) (living : here ∈ alive)
    (more : token + 1 < ((nodes here).rankRunning.set deadRank false).count true) :
    let nodes' := update nodes here ((nodes here).rescheduleDispatchedToDead deadRank 0).self
    visits alive deadRank (fuel + 1) nodes here token =
        (visits alive deadRank fuel nodes' (nodes here).guardRank (token + 1)).map (here :: ·) ∧
      rescheduleRing alive deadRank (fuel + 1) nodes here token =
        rescheduleRing alive deadRank fuel nodes' (nodes here).guardRank (token + 1) := by
  have passes : ((nodes here).rescheduleDispatchedToDead deadRank token).token =
      some (token + 1) := by
    rw [token_rescheduleDispatchedToDead, if_pos more]
  intro nodes'
  constructor
  · rw [visits, if_pos living]
    simp only [passes]
    rfl
  · rw [rescheduleRing, if_pos living]
    simp only [passes]
    rfl

/-- The calls visit a chain of guards once, when every locality on it takes as many localities for
running as the token will have visited in the end. -/
theorem visits_chain {alive : Finset Nat} {deadRank fuel here token : Nat}
    {nodes : Nat → Resilience W} {guard : Nat → Nat} {rest : List Nat}
    (enough : (here :: rest).length ≤ fuel) (nodup : (here :: rest).Nodup)
    (living : ∀ rank ∈ here :: rest, rank ∈ alive)
    (guards : ∀ rank ∈ here :: rest, (nodes rank).guardRank = guard rank)
    (chain : (here :: rest).IsChain fun x y => guard x = y)
    (running : ∀ rank ∈ here :: rest,
      ((nodes rank).rankRunning.set deadRank false).count true = token + (here :: rest).length) :
    visits alive deadRank fuel nodes here token = some (here :: rest) ∧
      ∀ rank, rescheduleRing alive deadRank fuel nodes here token rank =
        if rank ∈ here :: rest then ((nodes rank).rescheduleDispatchedToDead deadRank 0).self
        else nodes rank := by
  induction rest generalizing here token nodes fuel with
  | nil =>
    obtain ⟨fuel, rfl⟩ : ∃ k, fuel = k + 1 := ⟨fuel - 1, by simp at enough; omega⟩
    obtain ⟨visited, after⟩ := call_last fuel (living here List.mem_cons_self)
      (running here List.mem_cons_self)
    refine ⟨visited, fun rank => ?_⟩
    rw [after]
    by_cases same : rank = here
    · rw [same, Function.update_self, if_pos List.mem_cons_self]
    · rw [Function.update_of_ne same, if_neg (fun found => same (List.mem_singleton.mp found))]
  | cons other rest ih =>
    obtain ⟨notLater, nodup⟩ := List.nodup_cons.mp nodup
    obtain ⟨next, chain⟩ := List.isChain_cons_cons.mp chain
    have count := running here List.mem_cons_self
    simp only [List.length_cons] at enough count ih
    obtain ⟨fuel, rfl⟩ : ∃ k, fuel = k + 1 := ⟨fuel - 1, by omega⟩
    have more : token + 1 < ((nodes here).rankRunning.set deadRank false).count true := by omega
    obtain ⟨visited, after⟩ := call_next fuel (living here List.mem_cons_self) more
    rw [guards here List.mem_cons_self, next] at visited after
    -- the components of the localities that come later have not changed
    have later (rank : Nat) (found : rank ∈ other :: rest) :
        update nodes here ((nodes here).rescheduleDispatchedToDead deadRank 0).self rank =
          nodes rank :=
      Function.update_of_ne (fun same : rank = here => notLater (same ▸ found)) _ _
    obtain ⟨visited', after'⟩ := @ih fuel other (token + 1)
      (update nodes here ((nodes here).rescheduleDispatchedToDead deadRank 0).self) (by omega) nodup
      (fun rank found => living rank (List.mem_cons_of_mem _ found))
      (fun rank found => by rw [later rank found, guards rank (List.mem_cons_of_mem _ found)]) chain
      (fun rank found => by
        rw [later rank found, running rank (List.mem_cons_of_mem _ found), List.length_cons,
          List.length_cons]
        omega)
    refine ⟨by rw [visited, visited', Option.map_some], fun rank => ?_⟩
    rw [after, after']
    by_cases same : rank = here
    · subst same
      rw [if_neg notLater, if_pos List.mem_cons_self, Function.update_self]
    · rw [Function.update_of_ne same]
      simp only [List.mem_cons, same, false_or]

/-! ## Consistent rings -/

/-- The pointers of the live localities follow a permutation with a single cycle, and all live
localities know which ones have crashed. -/
structure Consistent (size : Nat) (alive : Finset Nat) (nodes : Nat → Resilience W)
    (next : Equiv.Perm Nat) : Prop where
  /-- The localities are those of a network. -/
  inside : ∀ rank ∈ alive, rank < size
  /-- The live localities form a ring. -/
  cycle : next.IsCycleOn alive
  /-- The guard is the next locality. -/
  guard : ∀ rank ∈ alive, (nodes rank).guardRank = next rank
  /-- The protectee is the locality before. -/
  protectee : ∀ rank ∈ alive, (nodes rank).protecteeRank = next.symm rank
  /-- The protectee's protectee is the one before that. -/
  second : ∀ rank ∈ alive, (nodes rank).protecteesProtecteeRank = next.symm (next.symm rank)
  /-- Exactly the live localities are taken for running. -/
  known : ∀ rank ∈ alive, (nodes rank).rankRunning =
    (List.range size).map fun other => decide (other ∈ alive)

/-- As many entries are set as there are localities. -/
theorem count_running {size : Nat} {alive : Finset Nat} (inside : ∀ rank ∈ alive, rank < size) :
    ((List.range size).map fun rank => decide (rank ∈ alive)).count true = alive.card := by
  have members : ((List.range size).filter fun rank => decide (rank ∈ alive)).toFinset = alive := by
    ext rank
    rw [List.mem_toFinset, List.mem_filter, List.mem_range, decide_eq_true_eq]
    exact ⟨And.right, fun living => ⟨inside rank living, living⟩⟩
  rw [List.count_eq_countP, List.countP_map, List.countP_eq_length_filter]
  conv_rhs => rw [← members, List.toFinset_card_of_nodup (List.nodup_range.filter _)]
  congr 2
  funext rank
  exact beq_true _

/-- Marking a locality as crashed takes it out of those that are running. -/
theorem set_running (size : Nat) (alive : Finset Nat) (deadRank : Nat) :
    ((List.range size).map fun rank => decide (rank ∈ alive)).set deadRank false =
      (List.range size).map fun rank => decide (rank ∈ alive.erase deadRank) := by
  apply List.ext_getElem
  · simp
  · intro i _ _
    rw [List.getElem_set]
    simp only [List.getElem_map, List.getElem_range, Finset.mem_erase]
    split
    · rename_i same
      exact (decide_eq_false fun both => both.1 same.symm).symm
    · rename_i other
      exact decide_eq_decide.mpr ⟨fun living => ⟨Ne.symm other, living⟩, And.right⟩

/-- What an update leaves as it was at its locality is the same at all localities. -/
theorem apply_update {β : Type} (read : Resilience W → β) (nodes : Nat → Resilience W)
    {here : Nat} {new : Resilience W} (same : read new = read (nodes here)) (rank : Nat) :
    read (update nodes here new rank) = read (nodes rank) := by
  by_cases place : rank = here
  · rw [place, Function.update_self, same]
  · rw [Function.update_of_ne place]

/-- The new pointers leave the guards of all but the new protectee as they were, and what is
running. -/
theorem reconnect_spec {alive : Finset Nat} {nodes : Nat → Resilience W} {here : Nat}
    (living : (nodes here).protecteesProtecteeRank ∈ alive) :
    ∃ reconnected, reconnect alive nodes here = some reconnected ∧ ∀ rank,
      (reconnected rank).rankRunning = (nodes rank).rankRunning ∧
        (rank ≠ (nodes here).protecteesProtecteeRank →
          (reconnected rank).guardRank = (nodes rank).guardRank) := by
  unfold reconnect
  simp only [if_pos living]
  refine ⟨_, rfl, fun rank => ⟨?_, fun other => ?_⟩⟩
  · refine (apply_update rankRunning _ ?_ rank).trans ((apply_update rankRunning _ ?_ rank).trans
      (apply_update rankRunning _ ?_ rank)) <;> rfl
  · refine (apply_update guardRank _ ?_ rank).trans ?_
    · rfl
    · rw [Function.update_of_ne other]
      refine apply_update guardRank nodes ?_ rank
      rfl

/-- In a ring with consistent pointers the guard of a crashed locality, of which another one
survives, finds the new protectee alive. Afterwards the guards of all survivors but the new
protectee are the next ones. -/
theorem Consistent.reconnect {size : Nat} {alive : Finset Nat} {nodes : Nat → Resilience W}
    {next : Equiv.Perm Nat} (consistent : Consistent size alive nodes next) {dead : Nat}
    (crashed : dead ∈ alive) (nontrivial : (alive : Set Nat).Nontrivial) :
    ∃ reconnected, Resilience.reconnect (alive.erase dead) nodes (next dead) = some reconnected ∧
      ∀ rank ∈ alive,
        (reconnected rank).rankRunning =
          ((List.range size).map fun other => decide (other ∈ alive)) ∧
        (next rank ≠ dead → (reconnected rank).guardRank = next rank) := by
  have cycle := consistent.cycle
  have living : next dead ∈ alive := cycle.apply_mem_iff.mpr crashed
  have second : (nodes (next dead)).protecteesProtecteeRank = next.symm dead := by
    rw [consistent.second _ living, Equiv.symm_apply_apply]
  have protectee : next.symm dead ∈ alive.erase dead := by
    refine Finset.mem_erase.mpr ⟨fun same => cycle.apply_ne nontrivial crashed ?_, ?_⟩
    · exact ((Equiv.symm_apply_eq next).mp same).symm
    · exact cycle.apply_mem_iff.mp (by rwa [Equiv.apply_symm_apply])
  obtain ⟨reconnected, found, same⟩ := reconnect_spec (second ▸ protectee)
  refine ⟨reconnected, found, fun rank there => ⟨?_, fun other => ?_⟩⟩
  · rw [(same rank).1, consistent.known rank there]
  · rw [(same rank).2 fun last => other ((Equiv.eq_symm_apply next).mp (last.trans second))]
    exact consistent.guard rank there

/-- After a crash in a ring with consistent pointers, of which one locality or more survives, the
guard of the crashed locality finds the new protectee alive. The token that it starts visits every
survivor once, however long its calls may go on, and every survivor has rescheduled once in the
end. -/
theorem visits_survivors {size : Nat} {alive : Finset Nat} {nodes : Nat → Resilience W}
    {next : Equiv.Perm Nat} (consistent : Consistent size alive nodes next) {dead here : Nat}
    (crashed : dead ∈ alive) (guards : (nodes dead).guardRank = here)
    (survivors : 1 ≤ (alive.erase dead).card) :
    ∃ reconnected visited, reconnect (alive.erase dead) nodes here = some reconnected ∧
      visited.Nodup ∧ visited.toFinset = alive.erase dead ∧
      (∀ fuel, (alive.erase dead).card ≤ fuel →
        visits (alive.erase dead) dead fuel reconnected here 0 = some visited) ∧
      protecteeCrashed (alive.erase dead) nodes here = some fun rank =>
        if rank ∈ alive.erase dead then ((reconnected rank).rescheduleDispatchedToDead dead 0).self
        else reconnected rank := by
  have cycle := consistent.cycle
  have nontrivial : (alive : Set Nat).Nontrivial := by
    obtain ⟨other, found⟩ := Finset.card_pos.mp survivors
    obtain ⟨different, living⟩ := Finset.mem_erase.mp found
    exact ⟨other, living, dead, crashed, different⟩
  obtain rfl : here = next dead := guards.symm.trans (consistent.guard dead crashed)
  have living : next dead ∈ alive := cycle.apply_mem_iff.mpr crashed
  have dies : (nodes (next dead)).protecteeRank = dead := by
    rw [consistent.protectee _ living, Equiv.symm_apply_apply]
  obtain ⟨reconnected, found, same⟩ := consistent.reconnect crashed nontrivial
  -- the guards lead from the guard of the crashed locality to its former protectee
  have card := Finset.card_erase_of_mem crashed
  have visited : (walk next (next dead) (alive.card - 1)).toFinset = alive.erase dead := by
    rw [toFinset_walk cycle living, Equiv.symm_apply_apply]
  have nodup : (walk next (next dead) (alive.card - 1)).Nodup :=
    nodup_walk cycle living (Nat.sub_le _ _)
  have survives (rank : Nat) (there : rank ∈ walk next (next dead) (alive.card - 1)) :
      rank ∈ alive.erase dead := visited ▸ List.mem_toFinset.mpr there
  have chain : (walk next (next dead) (alive.card - 1)).IsChain fun x y =>
      (reconnected x).guardRank = y :=
    isChain_walk fun x there there' => (same x (Finset.mem_of_mem_erase (survives x there))).2
      (Finset.ne_of_mem_erase (survives _ there'))
  have running (rank : Nat) (there : rank ∈ walk next (next dead) (alive.card - 1)) :
      ((reconnected rank).rankRunning.set dead false).count true = (alive.erase dead).card := by
    rw [(same rank (Finset.mem_of_mem_erase (survives rank there))).1, set_running, count_running]
    exact fun rank there => consistent.inside rank (Finset.mem_of_mem_erase there)
  obtain ⟨n, size⟩ : ∃ n, alive.card - 1 = n + 1 := ⟨alive.card - 2, by omega⟩
  rw [size, walk_succ] at visited nodup survives chain running
  have length : (next dead :: walk next (next (next dead)) n).length = (alive.erase dead).card := by
    rw [List.length_cons, length_walk, card, size]
  have calls (fuel : Nat) (enough : (alive.erase dead).card ≤ fuel) :=
    visits_chain (length ▸ enough) nodup survives (fun _ _ => rfl) chain fun rank there => by
      rw [running rank there, length, Nat.zero_add]
  refine ⟨reconnected, _, found, nodup, visited, fun fuel enough => (calls fuel enough).1, ?_⟩
  rw [protecteeCrashed_eq, found, dies, Option.map_some]
  have enough : (alive.erase dead).card ≤ (reconnected (next dead)).getRunningRanks + 1 := by
    unfold getRunningRanks
    rw [(same _ living).1, count_running consistent.inside]
    exact (Finset.card_le_card (Finset.erase_subset _ _)).trans (Nat.le_succ _)
  refine congrArg some (funext fun rank => ((calls _ enough).2 rank).trans ?_)
  simp only [← visited, List.mem_toFinset]

/-- At the start the pointers of two localities or more are consistent. -/
theorem consistent_start {size : Nat} (several : 2 ≤ size) (startTime : Nat → Nat) :
    Consistent size (Finset.range size) (ring W size startTime).start.nodes
      (List.range size).formPerm := by
  have forward (rank : Nat) (inside : rank < size) :
      (List.range size).formPerm rank = (rank + 1) % size := by
    have step := List.formPerm_apply_getElem (List.range size) List.nodup_range rank
      (by rwa [List.length_range])
    simpa only [List.getElem_range, List.length_range] using step
  have back (rank : Nat) (inside : rank < size) : (List.range size).formPerm.symm rank =
      if rank = 0 then size - 1 else rank - 1 := by
    rw [Equiv.symm_apply_eq, back_eq_mod inside, forward _ (Nat.mod_lt _ (by omega)),
      Nat.mod_add_mod, show rank + size - 1 + 1 = rank + size by omega, Nat.add_mod_right,
      Nat.mod_eq_of_lt inside]
  have range (rank : Nat) (living : rank ∈ Finset.range size) : rank < size :=
    Finset.mem_range.mp living
  refine ⟨range, ?_, fun rank living => ?_, fun rank living => ?_, fun rank living => ?_,
    fun rank living => ?_⟩
  · have cycle := List.Nodup.isCycleOn_formPerm (List.nodup_range (n := size))
    have members : {rank | rank ∈ List.range size} = (Finset.range size : Set Nat) := by
      ext rank
      rw [Set.mem_ofPred_eq, List.mem_range, Finset.mem_coe, Finset.mem_range]
    exact members ▸ cycle
  · exact (forward rank (range rank living)).symm
  · exact (back rank (range rank living)).symm
  · rw [back rank (range rank living), back]
    · rfl
    · have := range rank living
      split <;> omega
  · show List.replicate size true = _
    apply List.ext_getElem
    · rw [List.length_replicate, List.length_map, List.length_range]
    · intro i _ inside
      rw [List.length_map, List.length_range] at inside
      rw [List.getElem_replicate, List.getElem_map, List.getElem_range]
      exact (decide_eq_true (Finset.mem_range.mpr inside)).symm

/-- Of four localities the second crashes. -/
theorem visits_survivors_four : ∃ reconnected visited,
    reconnect ((Finset.range 4).erase 1) (ring Nat 4 fun _ => 0).start.nodes 2 = some reconnected ∧
      visited.Nodup ∧ visited.toFinset = (Finset.range 4).erase 1 ∧
      (∀ fuel, 3 ≤ fuel →
        visits ((Finset.range 4).erase 1) 1 fuel reconnected 2 0 = some visited) ∧
      protecteeCrashed ((Finset.range 4).erase 1) (ring Nat 4 fun _ => 0).start.nodes 2 =
        some fun rank =>
          if rank ∈ (Finset.range 4).erase 1 then
            ((reconnected rank).rescheduleDispatchedToDead 1 0).self
          else reconnected rank :=
  visits_survivors (consistent_start (by decide) fun _ => 0) (by decide) rfl (by decide)

end Resilience

end AllScale
