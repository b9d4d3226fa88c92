import Mathlib.Tactic.Common
import Mathlib.Logic.Function.Basic

/-!
# The resilience component

Every locality runs one component. It sends heartbeats to its guard, listens to those of its
protectee, and keeps the work items that the locality has dispatched to others until they complete.
The functions are those of `resilience_component.cpp`; localities are named by their ranks, times
are milliseconds and heartbeat counters are seconds.
-/

namespace AllScale

/-- `components::resilience` — the state of one locality, for work items of a type. -/
structure Resilience (W : Type) where
  /-- `rank_`. -/
  rank : Nat
  /-- `env_resilience_disabled`. -/
  envResilienceDisabled : Bool
  /-- `start_time`. -/
  startTime : Nat
  /-- `keep_running` — the heartbeat loop goes on. -/
  keepRunning : Bool
  /-- `my_heartbeat`. -/
  myHeartbeat : Nat
  /-- `protectee_heartbeat` — the counter of the last heartbeat that has been delivered. -/
  protecteeHeartbeat : Nat
  /-- `num_localities`. -/
  numLocalities : Nat
  /-- `rank_running_`. -/
  rankRunning : List Bool
  /-- `guard_rank_`, and the locality that `guard_` names. -/
  guardRank : Nat
  /-- `protectee_rank_`, and the locality that `protectee_` names. -/
  protecteeRank : Nat
  /-- `protectees_protectee_rank_`, and the locality that `protectees_protectee_` names. -/
  protecteesProtecteeRank : Nat
  /-- `delegated_items_` — the ranks and work items of the multimap, in the order of insertion. -/
  delegatedItems : List (Nat × W)

namespace Resilience

variable {W : Type}

/-- `delta` — how long a protectee may be silent. -/
def delta : Nat := 10000

/-- `resilience::init` at a time; `disabled` tells whether the environment switches resilience
off. -/
def init (rank numLocalities startTime : Nat) (disabled : Bool) : Resilience W :=
  let leftId := if rank = 0 then numLocalities - 1 else rank - 1
  { rank := rank
    envResilienceDisabled := disabled || decide (numLocalities < 2)
    startTime := startTime
    keepRunning := true
    myHeartbeat := 0
    protecteeHeartbeat := 0
    numLocalities := numLocalities
    rankRunning := List.replicate numLocalities true
    guardRank := (rank + 1) % numLocalities
    protecteeRank := leftId
    protecteesProtecteeRank := if leftId = 0 then numLocalities - 1 else leftId - 1
    delegatedItems := [] }

/-- `resilience::set_guard`. -/
def setGuard (self : Resilience W) (guardRank : Nat) : Resilience W :=
  { self with guardRank := guardRank }

/-- `resilience::send_heartbeat` — a heartbeat is delivered. -/
def sendHeartbeat (self : Resilience W) (counter : Nat) : Resilience W :=
  { self with protecteeHeartbeat := counter }

/-- `resilience::get_protectee`. -/
def getProtectee (self : Resilience W) : Nat := self.protecteeRank

/-- `resilience::get_running_ranks`. -/
def getRunningRanks (self : Resilience W) : Nat := self.rankRunning.count true

/-- `resilience::work_item_dispatched` — a work item is kept until its treeture is ready. -/
def workItemDispatched (self : Resilience W) (w : W) (scheduleRank : Nat) : Resilience W :=
  if self.envResilienceDisabled then self
  else { self with delegatedItems := self.delegatedItems ++ [(scheduleRank, w)] }

/-- Where resilience is enabled, a dispatched work item is added to those of its rank. -/
theorem workItemDispatched_eq {self : Resilience W} (enabled : self.envResilienceDisabled = false)
    (w : W) (scheduleRank : Nat) : self.workItemDispatched w scheduleRank =
      { self with delegatedItems := self.delegatedItems ++ [(scheduleRank, w)] } :=
  if_neg (by simp [enabled])

/-- The continuation that `resilience::work_item_dispatched` attaches to the treeture of a work item
dispatched to a rank. Of the entries of a rank the lookup in the multimap finds the first. -/
def workItemFinished (self : Resilience W) (scheduleRank : Nat) : Resilience W :=
  { self with
    delegatedItems := self.delegatedItems.eraseP fun entry => entry.1 = scheduleRank }

/-- What `resilience::reschedule_dispatched_to_dead` does. -/
structure Rescheduled (W : Type) where
  /-- The component afterwards. -/
  self : Resilience W
  /-- The work items that are scheduled again. -/
  items : List W
  /-- The token with which the guard is called, unless the ring has been passed. -/
  token : Option Nat

/-- `resilience::reschedule_dispatched_to_dead`. -/
def rescheduleDispatchedToDead (self : Resilience W) (deadRank token : Nat) : Rescheduled W :=
  let rescheduledItems := self.delegatedItems.filter fun entry => entry.1 = deadRank
  let numLocalities := self.numLocalities - 1
  let self := { self with
    delegatedItems := self.delegatedItems.filter fun entry => ¬ entry.1 = deadRank
    rankRunning := self.rankRunning.set deadRank false
    numLocalities := numLocalities
    keepRunning := if numLocalities < 2 then false else self.keepRunning }
  let token := token + 1
  { self := self
    items := rescheduledItems.map Prod.snd
    token := if self.getRunningRanks > token then some token else none }

end Resilience

end AllScale
