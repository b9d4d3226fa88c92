import AllScale.Network
import AllScale.SchedulePolicy.FillTree

/-!
# The tree scheduling policy

`tree_scheduling_policy` decides for a task path and an overlay address what happens to the task
there. It does so from the decision tree alone: `get_target` replays the decisions of the path
from the root, and `decide` looks for the ancestor of the task that was sent to the address. When
the tree has the decisions of a plan these are `target` and `steer` of the plan.
-/

namespace AllScale

open TokenTree HierarchyAddress

namespace HierarchyAddress

/-- Where a decision sends a task. -/
def send (addr : HierarchyAddress) : ScheduleDecision → HierarchyAddress
  | .done => addr
  | .stay => addr
  | .left => addr.getLeftChild
  | .right => addr.getRightChild

end HierarchyAddress

/-- `tree_scheduling_policy`. -/
structure TreeSchedulingPolicy where
  /-- `root_`. -/
  root : HierarchyAddress
  /-- `granularity_`. -/
  granularity : Nat
  /-- `tree_`. -/
  tree : DecisionTree

namespace TreeSchedulingPolicy

/-! ## Decisions -/

mutual

/-- `tree_scheduling_policy::get_target`; `none` when a decision is read from outside of the tree.
The first round of the loop in `decide` is written out here: see `getTarget_eq_decide`. -/
def getTarget (policy : TreeSchedulingPolicy) : TaskPath → Option HierarchyAddress
  | [] => do
    let decision ← (if policy.root.isLeaf then some .stay else policy.tree.get [])
    some (policy.root.send decision)
  | s :: parent => do
    let res ← policy.getTarget parent
    let decision ← (if res.isLeaf then some .stay
      else do
        let target ← policy.getTarget parent
        if target = res then policy.tree.get (s :: parent) else policy.decideLoop res parent)
    some (res.send decision)

/-- The loop of `tree_scheduling_policy::decide`, which walks up from a path. -/
def decideLoop (policy : TreeSchedulingPolicy) (addr : HierarchyAddress) :
    TaskPath → Option ScheduleDecision
  | [] => if policy.root = addr then policy.tree.get [] else some .stay
  | s :: parent => do
    let target ← policy.getTarget parent
    if target = addr then policy.tree.get (s :: parent) else policy.decideLoop addr parent

end

/-- `tree_scheduling_policy::decide`. -/
def decide (policy : TreeSchedulingPolicy) (addr : HierarchyAddress) (path : TaskPath) :
    Option ScheduleDecision :=
  if addr.isLeaf then some .stay else policy.decideLoop addr path

/-- `get_target` asks `decide` at the root, or at the target of the parent task. -/
theorem getTarget_eq_decide (policy : TreeSchedulingPolicy) (path : TaskPath) :
    policy.getTarget path =
      (match path with
        | [] => some policy.root
        | _ :: parent => policy.getTarget parent).bind fun res =>
          (policy.decide res path).bind fun decision => some (res.send decision) := by
  cases path with
  | nil =>
    rw [getTarget]
    simp only [Option.bind_some, decide, decideLoop, if_true]
    rfl
  | cons s parent =>
    rw [getTarget]
    simp only [decide, decideLoop]
    rfl

/-- `tree_scheduling_policy::is_involved`. -/
def isInvolved (policy : TreeSchedulingPolicy) (addr : HierarchyAddress) : TaskPath → Option Bool
  | [] =>
    if addr = policy.root then some true
    else do
      match ← policy.decide policy.root [] with
      | .stay => some false
      | .left => some (addr = policy.root.getLeftChild)
      | .right => some (addr = policy.root.getRightChild)
      | .done => some false
  | s :: parent =>
    if addr = policy.root then some true
    else do
      let before ← policy.isInvolved addr parent
      if before then some true
      else do
        let target ← policy.getTarget (s :: parent)
        some (target = addr)

/-! ## Mappings -/

/-- `traceTarget`; `fuel` bounds the iterations of its loop. -/
def traceTarget (policy : TreeSchedulingPolicy) : (fuel : Nat) → TaskPath → Option Nat
  | 0, _ => none
  | fuel + 1, p => do
    let res ← policy.getTarget p
    if res.isLeaf then some res.rank else policy.traceTarget fuel p.getLeftChildPath

/-- `collectPaths`, for a depth that has been increased by one. -/
def collectPaths (cur : TaskPath) : (levels : Nat) → List TaskPath
  | 0 => []
  | levels + 1 =>
    cur :: (collectPaths cur.getLeftChildPath levels ++ collectPaths cur.getRightChildPath levels)

/-- `getAllPaths`. -/
def getAllPaths (depth : Nat) : List TaskPath := collectPaths .root (depth + 1)

/-- `tree_scheduling_policy::task_distribution_mapping`; `fuel` bounds the loop of each trace. -/
def taskDistributionMapping (policy : TreeSchedulingPolicy) (fuel : Nat) : Option (List Nat) :=
  ((getAllPaths policy.granularity).filter fun cur => cur.getLength = policy.granularity).mapM
    (policy.traceTarget fuel)

/-- `tree_scheduling_policy::from_mapping`. -/
def fromMapping (old : TreeSchedulingPolicy) (mapping : List Nat) :
    Option TreeSchedulingPolicy := do
  let log2 := old.root.layer
  some ⟨old.root, old.granularity, ← toDecisionTree (1 <<< log2) mapping⟩

/-- The loop of `getEqualDistribution` over the nodes, from a number `l` of nodes that have been
given one task more; the ranks written. -/
def distribute (mask : List Bool) (share remainder : Nat) : List Nat → (l : Nat) → List Nat
  | [], _ => []
  | i :: nodes, l =>
    if mask.getD i false = false then distribute mask share remainder nodes l
    else List.replicate share i ++
      if l < remainder then i :: distribute mask share remainder nodes (l + 1)
      else distribute mask share remainder nodes l

/-- `getEqualDistribution`, with its check that every task has been given to a node. -/
def getEqualDistribution (mask : List Bool) (numTasks : Nat) : Option (List Nat) :=
  let numNodes := mask.count true
  let share := numTasks / numNodes
  let remainder := numTasks % numNodes
  let res := distribute mask share remainder (List.range numNodes) 0
  if res.length = numTasks then some res else none

/-- `tree_scheduling_policy::create_uniform` for the nodes of a mask. -/
def createUniformMask (mask : List Bool) (granularity : Nat) : Option TreeSchedulingPolicy :=
  if mask.count true = 0 then none
  else do
    let log2 := ceilLog2 mask.length
    let levels := max log2 granularity
    let numTasks := 1 <<< levels
    let mapping ← getEqualDistribution mask numTasks
    some ⟨getRootOfNetworkSize mask.length, levels, ← toDecisionTree (1 <<< log2) mapping⟩

/-- `tree_scheduling_policy::create_uniform` for a number of nodes. -/
def createUniform (size granularity : Nat) : Option TreeSchedulingPolicy :=
  createUniformMask (List.replicate size true) granularity

/-! ## Policies that follow a plan -/

variable {k : Nat} {plan : TaskPath → Option Side} {policy : TreeSchedulingPolicy}

/-- The policy is rooted in the overlay and its tree has the decisions of a plan, at every path
that the plan has not led to a leaf before. -/
structure Follows (k : Nat) (plan : TaskPath → Option Side) (policy : TreeSchedulingPolicy) :
    Prop where
  /-- The root of the policy is the root of the overlay. -/
  root : policy.root = (overlay k).root
  /-- The decisions of the tree are the turns of the plan. -/
  decisions : ∀ path, (overlay k).layer ((overlay k).spot plan path) ≠ 0 →
    policy.tree.get path = some (.ofTurn (plan path))

/-- A decision to turn sends a task where the turn leads. -/
theorem send_ofTurn {addr : HierarchyAddress} (inner : (overlay k).layer addr ≠ 0)
    (turn : Option Side) : addr.send (.ofTurn turn) = (overlay k).turn addr turn := by
  cases turn with
  | none => rfl
  | some s =>
    rw [LayeredTree.turn_of_inner inner]
    cases s <;> rfl

namespace Follows

/-- The target of a path is where the plan leads. -/
theorem getTarget_eq (follows : policy.Follows k plan) (path : TaskPath) :
    policy.getTarget path = some ((overlay k).target plan path) := by
  -- one decision taken at the node that the plan has led to
  have advance (path : TaskPath) {decision : Option ScheduleDecision}
      (decided : decision = if ((overlay k).spot plan path).isLeaf then some .stay
        else policy.tree.get path) :
      (decision.bind fun decision => some (((overlay k).spot plan path).send decision)) =
        some ((overlay k).target plan path) := by
    rw [decided]
    by_cases low : (overlay k).layer ((overlay k).spot plan path) = 0
    · have leaf : ((overlay k).spot plan path).isLeaf = true := beq_iff_eq.mpr low
      rw [if_pos leaf, Option.bind_some, LayeredTree.target, LayeredTree.turn_of_leaf low]
      rfl
    · have virtual : ¬ ((overlay k).spot plan path).isLeaf = true := fun leaf =>
        low (beq_iff_eq.mp leaf)
      rw [if_neg virtual, follows.decisions path low, Option.bind_some, send_ofTurn low]
      rfl
  induction path with
  | nil =>
    rw [getTarget, follows.root]
    exact advance [] rfl
  | cons s parent ih =>
    rw [getTarget, ih]
    simp only [Option.bind_eq_bind, Option.bind_some, if_true]
    exact advance (s :: parent) rfl

/-- Away from the leaves the search of `decide` steers along the plan. -/
theorem decideLoop_eq (follows : policy.Follows k plan) {addr : HierarchyAddress}
    (inner : (overlay k).layer addr ≠ 0) (path : TaskPath) :
    policy.decideLoop addr path = some (.ofTurn ((overlay k).steer plan addr path)) := by
  induction path with
  | nil =>
    rw [decideLoop, LayeredTree.steer, follows.root]
    split
    · rename_i root
      apply follows.decisions
      rw [show (overlay k).spot plan [] = (overlay k).root from rfl, root]
      exact inner
    · rfl
  | cons s parent ih =>
    rw [decideLoop, LayeredTree.steer, follows.getTarget_eq]
    simp only [Option.bind_eq_bind, Option.bind_some]
    split
    · rename_i target
      apply follows.decisions
      rw [LayeredTree.spot_cons, target]
      exact inner
    · exact ih

/-- At a leaf a task stays, elsewhere the plan steers it. -/
theorem decide_eq (follows : policy.Follows k plan) (addr : HierarchyAddress) (path : TaskPath) :
    policy.decide addr path = some (if (overlay k).layer addr = 0 then .stay
      else .ofTurn ((overlay k).steer plan addr path)) := by
  rw [decide]
  by_cases low : (overlay k).layer addr = 0
  · have leaf : addr.isLeaf = true := beq_iff_eq.mpr low
    rw [if_pos leaf, if_pos low]
  · have virtual : ¬ addr.isLeaf = true := fun leaf => low (beq_iff_eq.mp leaf)
    rw [if_neg virtual, if_neg low, follows.decideLoop_eq low]

/-- No decision is to be done. -/
theorem decide_ne_done (follows : policy.Follows k plan) (addr : HierarchyAddress)
    (path : TaskPath) : policy.decide addr path ≠ some .done := by
  rw [follows.decide_eq]
  split
  · decide
  · intro same
    exact ScheduleDecision.ofTurn_ne_done _ (Option.some.inj same)

/-- An address is involved exactly if it lies on the way of the path. -/
theorem isInvolved_iff (follows : policy.Follows k plan) (addr : HierarchyAddress)
    (path : TaskPath) :
    ∃ involved, policy.isInvolved addr path = some involved ∧
      (involved = true ↔ (overlay k).Visits plan path addr) := by
  induction path with
  | nil =>
    rw [isInvolved, follows.root]
    by_cases root : addr = (overlay k).root
    · exact ⟨true, if_pos root, fun _ => Or.inl root, fun _ => rfl⟩
    · have visits : (overlay k).Visits plan [] addr ↔
          (overlay k).target plan [] = addr := by
        constructor
        · rintro (same | ⟨earlier, prior, reached⟩)
          · exact absurd same root
          · rwa [List.suffix_nil.mp prior] at reached
        · intro reached
          exact Or.inr ⟨[], List.suffix_rfl, reached⟩
      rw [if_neg root, follows.decide_eq, visits]
      have target : (overlay k).target plan [] = (overlay k).turn (overlay k).root (plan []) := rfl
      have apart : ¬ (overlay k).root = addr := fun same => root same.symm
      by_cases low : (overlay k).layer (overlay k).root = 0
      · refine ⟨false, ?_, ?_⟩
        · rw [if_pos low]
          rfl
        · rw [target, LayeredTree.turn_of_leaf low]
          simp [apart]
      · rw [if_neg low, LayeredTree.steer, if_pos rfl, target]
        cases plan [] with
        | none => exact ⟨false, rfl, by simp [LayeredTree.turn, apart]⟩
        | some s =>
          rw [LayeredTree.turn_of_inner low]
          cases s <;> refine ⟨_, rfl, ?_⟩ <;> rw [decide_eq_true_eq] <;> exact eq_comm
  | cons s parent ih =>
    obtain ⟨before, earlier, visited⟩ := ih
    rw [isInvolved, follows.root, earlier, follows.getTarget_eq]
    by_cases root : addr = (overlay k).root
    · exact ⟨true, if_pos root, fun _ => Or.inl root, fun _ => rfl⟩
    · rw [if_neg root]
      cases before with
      | true =>
        refine ⟨true, rfl, fun _ => ?_, fun _ => rfl⟩
        exact (visited.mp rfl).mono (List.suffix_cons s parent)
      | false =>
        refine ⟨_, rfl, ?_⟩
        rw [decide_eq_true_eq]
        constructor
        · intro reached
          exact Or.inr ⟨s :: parent, List.suffix_rfl, reached⟩
        · rintro (same | ⟨first, prior, reached⟩)
          · exact absurd same root
          · rcases List.suffix_cons_iff.mp prior with same | shorter
            · rwa [same] at reached
            · exact absurd (visited.mpr (Or.inr ⟨first, shorter, reached⟩)) Bool.false_ne_true

end Follows

/-! ## Policies of a mapping -/

/-- The plan that `fillTree` follows for a mapping of `2 ^ g` tasks. -/
def planOf (mapping : List Nat) (height g : Nat) (path : TaskPath) : Option Side :=
  ((Block.whole height (2 ^ g)).follow mapping path).choose mapping

/-- The plan of a mapping leads from block to block. -/
theorem spot_planOf (mapping : List Nat) (k g : Nat) (path : TaskPath) :
    (overlay k).spot (planOf mapping k g) path =
      ((Block.whole k (2 ^ g)).follow mapping path).addr := by
  induction path with
  | nil =>
    show getRootOfNetworkSize (2 ^ k) = ⟨0, k⟩
    rw [getRootOfNetworkSize_eq, height_two_pow]
  | cons s path ih =>
    show (overlay k).turn ((overlay k).spot (planOf mapping k g) path) _ =
      (((Block.whole k (2 ^ g)).follow mapping path).half mapping s).addr
    rw [ih, Block.addr_half mapping _ s k]
    rfl

/-- The policy of a mapping for a network of a size follows the plan of the mapping. -/
theorem exists_follows {mapping : List Nat} {size g : Nat} (tasks : mapping.length = 2 ^ g)
    (bound : height size ≤ g) :
    ∃ tree, toDecisionTree (1 <<< (getRootOfNetworkSize size).layer) mapping = some tree ∧
      (⟨getRootOfNetworkSize size, g, tree⟩ : TreeSchedulingPolicy).Follows (height size)
        (planOf mapping (height size) g) := by
  rw [layer_getRootOfNetworkSize, Nat.shiftLeft_eq, Nat.one_mul]
  obtain ⟨tree, built, decisions⟩ := toDecisionTree_spec tasks bound
  refine ⟨tree, built, (root_overlay size).symm, fun path inner => ?_⟩
  · rw [spot_planOf] at inner
    exact decisions path inner

end TreeSchedulingPolicy

end AllScale
