import AllScale.Hierarchy
import AllScale.Lib.Run
import AllScale.Tasks.TaskId

/-!
# NUMA nodes of tasks

Below the cut-off every call of `task_id::numa_node` follows one more turn of the path of a task,
until the number of turns that tells all NUMA domains apart is used up. The turns left and the node
reached are two bytes that a child inherits from its parent. However ids are derived and calls are
repeated, a node stays an index of an executor of the scheduler.
-/

namespace AllScale

open Transition

namespace TaskId

variable {capacity : Nat}

/-- An id with the defaults of `numa_depth` and `numa_node_`, as `task_id::create_root` and
`task_id::parent` make it and as it arrives at another locality. -/
def withDefaults (localityId id : Nat) (path : PackedPath capacity) : TaskId capacity :=
  ⟨localityId, id, path, 0, 255⟩

/-- `task_id::numa_node` — the node, and the id with its mutable fields. -/
def assignNumaNode (self : TaskId capacity) (numaD cutOff : Nat) : Nat × TaskId capacity :=
  if self.path.length < cutOff then (0, self)
  else
    let self :=
      if self.numaNode = 255 then { self with numaDepth := BitVec.ofNat 8 numaD, numaNode := 0 }
      else if 0 < self.numaDepth then
        { self with
          numaDepth := self.numaDepth - 1
          numaNode := BitVec.ofNat 8 (self.numaNode.toNat * 2 + (self.path.bits.toNat &&& 1)) }
      else self
    (self.numaNode.toNat, self)

/-- The node of an id is one of those reached by the turns that are not left. -/
structure InRange (numaD : Nat) (taskId : TaskId capacity) : Prop where
  /-- No more turns are left than there are. -/
  depth : taskId.numaDepth.toNat ≤ numaD
  /-- The node is reached by the other ones. -/
  node : taskId.numaNode.toNat < 2 ^ (numaD - taskId.numaDepth.toNat)

/-- An id has the mark that it has no node yet, or its node is in range. A node may come to have the
value of the mark, and is then assigned anew. -/
def Assigned (numaD : Nat) (self : TaskId capacity) : Prop :=
  self.numaNode = 255 ∨ self.InRange numaD

variable {self : TaskId capacity} {numaD : Nat}

/-- All nodes in range are below the number of nodes that the turns tell apart. -/
theorem InRange.lt (inside : self.InRange numaD) : self.numaNode.toNat < 2 ^ numaD :=
  Nat.lt_of_lt_of_le inside.node (Nat.pow_le_pow_right (by decide) (Nat.sub_le _ _))

/-- A node reached by one more turn is in the range that is twice as large. -/
theorem turn_lt {depth node turn : Nat} (left : 0 < depth) (inside : depth ≤ numaD)
    (below : node < 2 ^ (numaD - depth)) (single : turn < 2) :
    node * 2 + turn < 2 ^ (numaD - (depth - 1)) := by
  have used : numaD - (depth - 1) = numaD - depth + 1 := by omega
  rw [used, Nat.pow_succ]
  omega

/-- Assigning the node of the root leaves all turns, as far as their number fits into a byte. -/
theorem inRange_first (self : TaskId capacity) (numaD : Nat) :
    ({ self with numaDepth := BitVec.ofNat 8 numaD, numaNode := 0 } : TaskId capacity).InRange
      numaD where
  depth := by
    rw [BitVec.toNat_ofNat]
    exact Nat.mod_le _ _
  node := Nat.two_pow_pos _

/-- Following a turn keeps the node in range, also where it does not fit into a byte. -/
theorem InRange.turn (inside : self.InRange numaD) (left : 0 < self.numaDepth) :
    ({ self with
        numaDepth := self.numaDepth - 1
        numaNode := BitVec.ofNat 8 (self.numaNode.toNat * 2 + (self.path.bits.toNat &&& 1)) } :
      TaskId capacity).InRange numaD := by
  have positive : 0 < self.numaDepth.toNat := BitVec.lt_def.mp left
  have bound := inside.depth
  have word := self.numaDepth.isLt
  have depth : (self.numaDepth - 1).toNat = self.numaDepth.toNat - 1 := by
    have one : (1 : BitVec 8).toNat = 1 := rfl
    rw [BitVec.toNat_sub, one]
    omega
  have single : self.path.bits.toNat &&& 1 < 2 := by
    rw [Nat.and_one_is_mod]
    exact Nat.mod_lt _ (by decide)
  constructor
  · show (self.numaDepth - 1).toNat ≤ numaD
    omega
  · show (BitVec.ofNat 8 _).toNat < 2 ^ (numaD - (self.numaDepth - 1).toNat)
    rw [depth, BitVec.toNat_ofNat]
    exact Nat.lt_of_le_of_lt (Nat.mod_le _ _) (turn_lt positive bound inside.node single)

/-- A child inherits the two fields. -/
theorem Assigned.child {child : TaskId capacity} (before : self.Assigned numaD)
    (depth : child.numaDepth = self.numaDepth) (node : child.numaNode = self.numaNode) :
    child.Assigned numaD := by
  cases before with
  | inl marked => exact Or.inl (node.trans marked)
  | inr inside => exact Or.inr ⟨depth ▸ inside.depth, depth ▸ node ▸ inside.node⟩

/-- A call returns a node in range and leaves the id with one, or with the mark. -/
theorem Assigned.assignNumaNode (before : self.Assigned numaD) (cutOff : Nat) :
    (self.assignNumaNode numaD cutOff).1 < 2 ^ numaD ∧
      (self.assignNumaNode numaD cutOff).2.Assigned numaD := by
  unfold TaskId.assignNumaNode
  split
  · exact ⟨Nat.two_pow_pos numaD, before⟩
  · dsimp only
    split
    · have after := inRange_first self numaD
      exact ⟨after.lt, Or.inr after⟩
    · rename_i marked
      have inside := before.resolve_left marked
      split
      · rename_i left
        have after := inside.turn left
        exact ⟨after.lt, Or.inr after⟩
      · exact ⟨inside.lt, Or.inr inside⟩

end TaskId

/-! ## Executors -/

/-- `components::scheduler` — what it chooses an executor by. -/
structure Scheduler where
  /-- `numa_depth`. -/
  numaDepth : Nat
  /-- `numa_start`. -/
  numaStart : Nat
  /-- `executors_`, by the names of their pools. -/
  executors : List String

namespace Scheduler

/-- The name of the pool of a NUMA domain. -/
def poolName (domain : Nat) : String := "allscale-numa-" ++ toString domain

/-- `scheduler::init` — the vector of NUMA domains appears by its length, and the logarithm is
exact. -/
def init (numaDomains numLocalities : Nat) : Scheduler where
  numaDepth := Nat.log2 numaDomains
  numaStart := HierarchyAddress.getLayersOn 0 numLocalities
  executors := (List.range numaDomains).map poolName

/-- The start of `scheduler::schedule_local` — the executor for a task, and its id. -/
def localExecutor {capacity : Nat} (self : Scheduler) (id : TaskId capacity) :
    Option String × TaskId capacity :=
  let assigned := id.assignNumaNode self.numaDepth self.numaStart
  (self.executors[assigned.1]?, assigned.2)

variable {numaDomains : Nat}

/-- There is one executor for every NUMA domain. -/
@[simp] theorem length_executors (numaDomains numLocalities : Nat) :
    (init numaDomains numLocalities).executors.length = numaDomains :=
  (List.length_map poolName).trans List.length_range

/-- The executor with the index of a NUMA domain posts to the pool of the domain. -/
theorem executors_getElem? {domain : Nat} (inside : domain < numaDomains) (numLocalities : Nat) :
    (init numaDomains numLocalities).executors[domain]? = some (poolName domain) := by
  show ((List.range numaDomains).map poolName)[domain]? = _
  rw [List.getElem?_map, List.getElem?_range inside]
  rfl

/-- The turns tell no more nodes apart than there are NUMA domains. -/
theorem pow_numaDepth_le (populated : 1 ≤ numaDomains) (numLocalities : Nat) :
    2 ^ (init numaDomains numLocalities).numaDepth ≤ numaDomains :=
  Nat.log2_self_le (Nat.ne_of_gt populated)

end Scheduler

/-! ## Ids and calls -/

/-- What happens to the ids of the tasks. -/
inductive IdAction (capacity : Nat) where
  /-- An id is made with the defaults. -/
  | create (localityId id : Nat) (path : PackedPath capacity)
  /-- An id is copied. -/
  | copy (i : Nat)
  /-- `task_id::left_child`. -/
  | leftChild (i : Nat)
  /-- `task_id::right_child`. -/
  | rightChild (i : Nat)
  /-- `task_id::numa_node` with the depth of the scheduler. -/
  | numaNode (i cutOff : Nat)

/-- The ids there are, each with fields of its own. -/
inductive IdStep {capacity : Nat} (scheduler : Scheduler) :
    List (TaskId capacity) → IdAction capacity → List (TaskId capacity) → Prop
  | create {ids : List (TaskId capacity)} (localityId id : Nat) (path : PackedPath capacity) :
      IdStep scheduler ids (.create localityId id path)
        (ids ++ [.withDefaults localityId id path])
  | copy {ids : List (TaskId capacity)} {i : Nat} {self : TaskId capacity} :
      ids[i]? = some self → IdStep scheduler ids (.copy i) (ids ++ [self])
  | leftChild {ids : List (TaskId capacity)} {i : Nat} {self : TaskId capacity} :
      ids[i]? = some self → IdStep scheduler ids (.leftChild i) (ids ++ [self.leftChild])
  | rightChild {ids : List (TaskId capacity)} {i : Nat} {self : TaskId capacity} :
      ids[i]? = some self → IdStep scheduler ids (.rightChild i) (ids ++ [self.rightChild])
  | numaNode {ids : List (TaskId capacity)} {i : Nat} {self : TaskId capacity} (cutOff : Nat) :
      ids[i]? = some self → IdStep scheduler ids (.numaNode i cutOff)
        (ids.set i (self.assignNumaNode scheduler.numaDepth cutOff).2)

/-- No id has been made yet. -/
def assigning (capacity : Nat) (scheduler : Scheduler) :
    System (List (TaskId capacity)) (IdAction capacity) where
  start := []
  step := IdStep scheduler

section Runs

variable {capacity : Nat} {scheduler : Scheduler} {ids ids' : List (TaskId capacity)}
  {action : IdAction capacity}

/-- One more id with a node in range, or with the mark. -/
theorem assigned_append {numaD : Nat} (before : ∀ id ∈ ids, id.Assigned numaD)
    {self : TaskId capacity} (assigned : self.Assigned numaD) :
    ∀ id ∈ ids ++ [self], id.Assigned numaD := by
  intro id member
  cases List.mem_append.mp member with
  | inl old => exact before id old
  | inr new => exact List.mem_singleton.mp new ▸ assigned

/-- A step leaves every id with a node in range, or with the mark. -/
theorem IdStep.assigned (step : IdStep scheduler ids action ids')
    (before : ∀ id ∈ ids, id.Assigned scheduler.numaDepth) :
    ∀ id ∈ ids', id.Assigned scheduler.numaDepth := by
  cases step with
  | create localityId id path => exact assigned_append before (Or.inl rfl)
  | copy found => exact assigned_append before (before _ (List.mem_of_getElem? found))
  | leftChild found =>
    exact assigned_append before ((before _ (List.mem_of_getElem? found)).child rfl rfl)
  | rightChild found =>
    exact assigned_append before ((before _ (List.mem_of_getElem? found)).child rfl rfl)
  | numaNode cutOff found =>
    intro id member
    cases List.mem_or_eq_of_mem_set member with
    | inl old => exact before id old
    | inr new =>
      have called := (before _ (List.mem_of_getElem? found)).assignNumaNode cutOff
      exact new ▸ called.2

/-- In every run all ids have a node in range, or the mark. -/
theorem assigned_of_run {history : List (List (TaskId capacity) × IdAction capacity)}
    (run : (assigning capacity scheduler).Run history ids) :
    ∀ id ∈ ids, id.Assigned scheduler.numaDepth :=
  run.invariant (fun _ member => absurd member List.not_mem_nil) fun before step =>
    IdStep.assigned step before

/-- Whatever ids have been derived and whatever calls have been made, every task is posted to the
pool of a NUMA domain. -/
theorem localExecutor_of_run {numaDomains numLocalities : Nat} (populated : 1 ≤ numaDomains)
    {history : List (List (TaskId capacity) × IdAction capacity)}
    (run : (assigning capacity (.init numaDomains numLocalities)).Run history ids) :
    ∀ id ∈ ids, ∃ domain < numaDomains,
      ((Scheduler.init numaDomains numLocalities).localExecutor id).1 =
        some (Scheduler.poolName domain) := by
  intro id member
  let scheduler := Scheduler.init numaDomains numLocalities
  have below := ((assigned_of_run run id member).assignNumaNode scheduler.numaStart).1
  have inside := Nat.lt_of_lt_of_le below (Scheduler.pow_numaDepth_le populated numLocalities)
  exact ⟨_, inside, Scheduler.executors_getElem? inside numLocalities⟩

/-- Whatever ids have been derived and whatever calls have been made, a call on any of them with any
cut-off returns a node below two to the NUMA depth of the scheduler, and there is an executor for
it. -/
theorem numaNode_lt {numaDomains numLocalities : Nat} (populated : 1 ≤ numaDomains)
    {history : List (List (TaskId capacity) × IdAction capacity)}
    (run : (assigning capacity (.init numaDomains numLocalities)).Run history ids) :
    ∀ id ∈ ids, ∀ cutOff : Nat,
      let scheduler := Scheduler.init numaDomains numLocalities
      let numaNode := (id.assignNumaNode scheduler.numaDepth cutOff).1
      numaNode < 2 ^ scheduler.numaDepth ∧ numaNode < scheduler.executors.length := by
  intro id member cutOff
  have below := ((assigned_of_run run id member).assignNumaNode cutOff).1
  have inside := Nat.lt_of_lt_of_le below (Scheduler.pow_numaDepth_le populated numLocalities)
  have executors := Scheduler.length_executors numaDomains numLocalities
  exact ⟨below, Nat.lt_of_lt_of_eq inside executors.symm⟩

/-- Among five NUMA domains there are two turns to follow. The right child of the right child of a
root uses them up and stays at the last of the four nodes they tell apart. -/
theorem numaNode_lt_five :
    ∃ (history : List (List (TaskId 64) × IdAction 64)) (ids : List (TaskId 64)) (id : TaskId 64),
      (assigning 64 (.init 5 1)).Run history ids ∧
      history.map Prod.snd =
        [.numaNode 2 0, .numaNode 2 0, .rightChild 1, .numaNode 1 0, .rightChild 0, .numaNode 0 0,
          .create 0 1 (.root 64)] ∧
      ids[2]? = some id ∧ (id.assignNumaNode 2 0).1 = 3 ∧ 3 < 2 ^ (Scheduler.init 5 1).numaDepth ∧
      3 < (Scheduler.init 5 1).executors.length := by
  have root := System.Run.start.step (S := assigning 64 (.init 5 1))
    (IdStep.create 0 1 (.root 64))
  have called := root.step (IdStep.numaNode 0 (List.getElem?_cons_zero))
  have right := called.step (IdStep.rightChild (i := 0) rfl)
  have called' := right.step (IdStep.numaNode (i := 1) 0 rfl)
  have right' := called'.step (IdStep.rightChild (i := 1) rfl)
  have used := right'.step (IdStep.numaNode (i := 2) 0 rfl)
  have stays := used.step (IdStep.numaNode (i := 2) 0 rfl)
  exact ⟨_, _, _, stays, rfl, rfl, by decide,
    numaNode_lt (by decide) stays _ (List.mem_of_getElem? (i := 2) rfl) 0⟩

end Runs

end AllScale
