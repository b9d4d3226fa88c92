import Mathlib.Algebra.Order.Field.Rat
import Mathlib.Algebra.Order.BigOperators.Group.List
import Mathlib.Tactic.Linarith
import Mathlib.Tactic.FieldSimp
import Mathlib.Tactic.Ring
import AllScale.SchedulePolicy.Mapping

/-!
# Rebalancing by load

`create_rebalanced` estimates the cost of every task from the load of the node that the old policy
sent it to, and `rebalance_tasks` cuts the sequence of the tasks into pieces, one for each node that
is available: it goes on to the next node as soon as a task would exceed the share of the nodes up
to the current one. In exact arithmetic no node is given more than its share and one task.
-/

namespace AllScale

open TokenTree HierarchyAddress

namespace TreeSchedulingPolicy

section Model

variable {F : Type} [NatCast F] [Add F] [Div F] [LT F] [DecidableLT F] [LE F] [DecidableLE F]

/-- The loop `while (!mask[cur_node]) cur_node++`, over the rest of a mask from a node on; `none`
when it reads past the end of the mask. -/
def skipFrom : (rest : List Bool) → (curNode : Nat) → Option Nat
  | [], _ => none
  | true :: _, curNode => some curNode
  | false :: rest, curNode => skipFrom rest (curNode + 1)

/-- The first available node from a node on. -/
def skipInactive (mask : List Bool) (curNode : Nat) : Option Nat :=
  skipFrom (mask.drop curNode) curNode

/-- The loop of `rebalance_tasks` over the costs of the tasks: the ranks of the new mapping. -/
def assignTasks (mask : List Bool) (share : F) :
    (taskCosts : List F) → (curCosts nextGoal : F) → (curNode : Nat) → Option (List Nat)
  | [], _, _, _ => some []
  | cost :: taskCosts, curCosts, nextGoal, curNode => do
    let nextCosts := curCosts + cost
    if curNode < mask.length - 1 ∧ nextGoal < nextCosts then
      let curNode ← skipInactive mask (curNode + 1)
      some (curNode :: (← assignTasks mask share taskCosts nextCosts (nextGoal + share) curNode))
    else
      some (curNode :: (← assignTasks mask share taskCosts nextCosts nextGoal curNode))

/-- The mapping that `rebalance_tasks` computes. -/
def rebalanceMapping (taskCosts : List F) (mask : List Bool) : Option (List Nat) := do
  let availableNodes := if mask.count true = 0 then 1 else mask.count true
  let totalCosts := taskCosts.foldl (· + ·) ((0 : Nat) : F)
  let share := totalCosts / (availableNodes : F)
  let curNode ← skipInactive mask 0
  assignTasks mask share taskCosts ((0 : Nat) : F) share curNode

/-- `rebalance_tasks`. -/
def rebalanceTasks (old : TreeSchedulingPolicy) (taskCosts : List F) (mask : List Bool) :
    Option TreeSchedulingPolicy := do
  let mappingSize := 1 <<< old.granularity
  if mappingSize ≠ taskCosts.length then none
  else
    let newMapping ← rebalanceMapping taskCosts mask
    let log2 := old.root.layer
    some ⟨old.root, old.granularity, ← toDecisionTree (1 <<< log2) newMapping⟩

/-- The average costs of a task on every node; a node without a task has those of all tasks. -/
def averageCosts (state : List F) (oldShare : List Nat) (avg : F) : List F :=
  List.zipWith (fun load (share : Nat) => if share = 0 then avg else load / (share : F)) state
    oldShare

/-- `tree_scheduling_policy::create_rebalanced` for measured loads; `fuel` bounds the loops of
`task_distribution_mapping`. -/
def createRebalancedLoad (old : TreeSchedulingPolicy) (state : List F) (mask : List Bool)
    (fuel : Nat) : Option TreeSchedulingPolicy := do
  if state.length ≠ mask.length then none
  else if ¬ ∀ load ∈ state, ((0 : Nat) : F) ≤ load then none
  else
    let mapping ← old.taskDistributionMapping fuel
    let oldShare ← mapping.foldlM
      (fun (counts : List Nat) cur =>
        if cur < state.length then some (counts.modify cur (· + 1)) else none)
      (List.replicate state.length 0)
    let sum := state.foldl (· + ·) ((0 : Nat) : F)
    let avg := sum / (mapping.length : F)
    let costs := averageCosts state oldShare avg
    let taskCosts ← mapping.mapM fun cur => costs[cur]?
    rebalanceTasks old taskCosts mask

end Model

/-! ## Available nodes -/

variable {mask : List Bool} {share goal largest : ℚ} {node : Nat}

/-- The search in the rest of a mask ends at its first available node. -/
theorem skipFrom_spec {rest : List Bool} (available : true ∈ rest) (curNode : Nat) :
    ∃ i, skipFrom rest curNode = some (curNode + i) ∧ rest[i]? = some true ∧
      (rest.take i).count true = 0 := by
  induction rest generalizing curNode with
  | nil => cases available
  | cons active rest ih =>
    cases active with
    | true => exact ⟨0, rfl, rfl, rfl⟩
    | false =>
      obtain ⟨i, found, active, inactive⟩ := ih (by simpa using available) (curNode + 1)
      refine ⟨i + 1, ?_, by simpa using active, by simpa using inactive⟩
      rw [skipFrom, found]
      congr 1
      omega

/-- How many nodes before a node are available. -/
def availableBefore (mask : List Bool) (node : Nat) : Nat := (mask.take node).count true

/-- An available node is among those before the next one. -/
theorem availableBefore_succ (active : mask[node]? = some true) :
    availableBefore mask (node + 1) = availableBefore mask node + 1 := by
  unfold availableBefore
  rw [List.take_add_one, active]
  simp

/-- With fewer available nodes before a node than in the mask, the search from there ends at the
next available one. -/
theorem skipInactive_spec (fewer : availableBefore mask node < mask.count true) :
    ∃ next, skipInactive mask node = some next ∧ node ≤ next ∧ mask[next]? = some true ∧
      availableBefore mask next = availableBefore mask node := by
  have whole := congrArg (List.count true) (List.take_append_drop node mask)
  rw [List.count_append] at whole
  unfold availableBefore at fewer
  have available : true ∈ mask.drop node := List.count_pos_iff.mp (by omega)
  obtain ⟨i, found, active, inactive⟩ := skipFrom_spec available node
  rw [List.getElem?_drop] at active
  refine ⟨node + i, found, Nat.le_add_right node i, active, ?_⟩
  unfold availableBefore
  rw [List.take_add, List.count_append, inactive, Nat.add_zero]

/-- The last node of the mask is the last one that is available. -/
theorem availableBefore_last (active : mask[node]? = some true) (last : ¬ node < mask.length - 1) :
    availableBefore mask node + 1 = mask.count true := by
  obtain ⟨inside, -⟩ := List.getElem?_eq_some_iff.mp active
  rw [← availableBefore_succ active]
  unfold availableBefore
  rw [List.take_of_length_le (by omega)]

/-! ## Costs of the nodes -/

/-- The cost of all tasks that a mapping gives to a node. -/
def nodeCosts : (mapping : List Nat) → (taskCosts : List ℚ) → (node : Nat) → ℚ
  | rank :: mapping, cost :: taskCosts, node =>
    (if rank = node then cost else 0) + nodeCosts mapping taskCosts node
  | _, _, _ => 0

/-- A node to which no task is mapped has no cost. -/
theorem nodeCosts_of_notMem {mapping : List Nat} (unused : node ∉ mapping) (taskCosts : List ℚ) :
    nodeCosts mapping taskCosts node = 0 := by
  induction mapping generalizing taskCosts with
  | nil => rfl
  | cons rank mapping ih =>
    cases taskCosts with
    | nil => rfl
    | cons cost taskCosts =>
      have other : ¬ rank = node := fun same => unused (by simp [same])
      rw [nodeCosts, if_neg other, ih fun found => unused (List.mem_cons_of_mem rank found),
        zero_add]

/-- What the loop of `rebalance_tasks` computes from a node on: the tasks stay at the node as long
as their costs do not exceed the goal, and every later node is given at most its share and one
task. -/
structure Served (mask : List Bool) (share largest : ℚ) (taskCosts : List ℚ)
    (curCosts nextGoal : ℚ) (curNode : Nat) (mapping : List Nat) : Prop where
  /-- Every task is given to a node. -/
  length : mapping.length = taskCosts.length
  /-- The ranks are in ascending order. -/
  ascending : mapping.Pairwise (· ≤ ·)
  /-- The ranks are ranks of available nodes, from the current one on. -/
  ranks : ∀ rank ∈ mapping, curNode ≤ rank ∧ mask[rank]? = some true
  /-- The current node stays below its goal. -/
  current : nodeCosts mapping taskCosts curNode = 0 ∨
    curCosts + nodeCosts mapping taskCosts curNode ≤ nextGoal
  /-- The later nodes stay below their share and one task. -/
  later : ∀ rank, curNode < rank → nodeCosts mapping taskCosts rank ≤ share + largest

namespace Served

variable {cost curCosts : ℚ} {taskCosts : List ℚ} {mapping : List Nat} {next : Nat}

/-- A task can be given to the first node, as seen from any node before. -/
theorem ranks_cons {nextGoal : ℚ}
    (served : Served mask share largest taskCosts curCosts nextGoal next mapping)
    (active : mask[next]? = some true) (before : node ≤ next) :
    (next :: mapping).Pairwise (· ≤ ·) ∧
      ∀ rank ∈ next :: mapping, node ≤ rank ∧ mask[rank]? = some true := by
  have first (rank : Nat) (found : rank ∈ mapping) : next ≤ rank := (served.ranks rank found).1
  refine ⟨List.pairwise_cons.mpr ⟨first, served.ascending⟩, fun rank found => ?_⟩
  rcases List.mem_cons.mp found with here | later
  · rw [here]
    exact ⟨before, active⟩
  · exact ⟨Nat.le_trans before (first rank later), (served.ranks rank later).2⟩

/-- A task that does not exceed the goal stays at the node. -/
theorem stay (served : Served mask share largest taskCosts (curCosts + cost) goal node mapping)
    (active : mask[node]? = some true) (below : curCosts + cost ≤ goal) :
    Served mask share largest (cost :: taskCosts) curCosts goal node (node :: mapping) where
  length := congrArg Nat.succ served.length
  ascending := (served.ranks_cons active (Nat.le_refl node)).1
  ranks := (served.ranks_cons active (Nat.le_refl node)).2
  current := by
    right
    rw [nodeCosts, if_pos rfl]
    rcases served.current with none | within <;> linarith
  later := by
    intro rank after
    rw [nodeCosts, if_neg (by omega), zero_add]
    exact served.later rank after

/-- A task that exceeds the goal is the first one of the next node. -/
theorem advance
    (served : Served mask share largest taskCosts (curCosts + cost) (goal + share) next mapping)
    (after : node < next) (active : mask[next]? = some true) (above : goal < curCosts + cost)
    (bounded : cost ≤ largest) (positive : 0 ≤ share) (nonneg : 0 ≤ largest) :
    Served mask share largest (cost :: taskCosts) curCosts goal node (next :: mapping) where
  length := congrArg Nat.succ served.length
  ascending := (served.ranks_cons active (Nat.le_of_lt after)).1
  ranks := (served.ranks_cons active (Nat.le_of_lt after)).2
  current := by
    left
    rw [nodeCosts, if_neg (by omega), zero_add]
    apply nodeCosts_of_notMem
    intro found
    have beyond := (served.ranks node found).1
    omega
  later := by
    intro rank beyond
    rw [nodeCosts]
    rcases Nat.lt_trichotomy rank next with before | here | behind
    · have zero : nodeCosts mapping taskCosts rank = 0 := by
        apply nodeCosts_of_notMem
        intro found
        have later := (served.ranks rank found).1
        omega
      rw [if_neg (by omega), zero]
      linarith
    · subst here
      rw [if_pos rfl]
      rcases served.current with zero | within <;> linarith
    · rw [if_neg (by omega), zero_add]
      exact served.later rank behind

end Served

/-- The loop of `rebalance_tasks` gives out all tasks when it is at an available node, with the goal
of that node, and what has been given out and the costs of the tasks are the shares of all available
nodes. -/
theorem assignTasks_served {taskCosts : List ℚ} {curCosts : ℚ} (positive : 0 ≤ share)
    (nonneg : 0 ≤ largest) (costs : ∀ cost ∈ taskCosts, 0 ≤ cost ∧ cost ≤ largest)
    (active : mask[node]? = some true)
    (reached : goal = share * (availableBefore mask node + 1 : Nat))
    (total : curCosts + taskCosts.sum = share * (mask.count true : Nat)) :
    ∃ mapping, assignTasks mask share taskCosts curCosts goal node = some mapping ∧
      Served mask share largest taskCosts curCosts goal node mapping := by
  induction taskCosts generalizing curCosts goal node with
  | nil =>
    refine ⟨[], rfl, rfl, List.Pairwise.nil, fun _ found => absurd found List.not_mem_nil,
      Or.inl rfl, fun rank _ => ?_⟩
    show (0 : ℚ) ≤ share + largest
    linarith
  | cons cost taskCosts ih =>
    obtain ⟨⟨positiveCost, bounded⟩, rest⟩ := List.forall_mem_cons.mp costs
    have remaining : 0 ≤ taskCosts.sum := List.sum_nonneg fun other found => (rest other found).1
    rw [List.sum_cons, ← add_assoc] at total
    rw [assignTasks]
    by_cases crossed : node < mask.length - 1 ∧ goal < curCosts + cost
    · have above := crossed.2
      -- the goal of the last available node is the cost of all tasks
      have fewer : availableBefore mask (node + 1) < mask.count true := by
        rw [availableBefore_succ active]
        by_contra last
        have all : (mask.count true : ℚ) ≤ (availableBefore mask node + 1 : Nat) := by
          exact_mod_cast Nat.not_lt.mp last
        have goals := mul_le_mul_of_nonneg_left all positive
        linarith
      obtain ⟨next, found, after, active', before⟩ := skipInactive_spec fewer
      rw [availableBefore_succ active] at before
      have reached' : goal + share = share * (availableBefore mask next + 1 : Nat) := by
        rw [reached, before]
        push_cast
        ring
      obtain ⟨mapping, assigned, served⟩ := ih rest active' reached' total
      refine ⟨next :: mapping, ?_, served.advance after active' above bounded positive nonneg⟩
      simp [crossed, found, assigned]
    · have below : curCosts + cost ≤ goal := by
        by_cases inner : node < mask.length - 1
        · exact not_lt.mp fun above => crossed ⟨inner, above⟩
        · rw [reached, availableBefore_last active inner]
          linarith
      obtain ⟨mapping, assigned, served⟩ := ih rest active reached total
      refine ⟨node :: mapping, ?_, served.stay active below⟩
      simp [crossed, assigned]

/-- A distribution of the costs of tasks over the available nodes of a mask. -/
structure Distributed (mask : List Bool) (taskCosts : List ℚ) (mapping : List Nat) : Prop where
  /-- Every task is given to a node. -/
  length : mapping.length = taskCosts.length
  /-- The ranks are in ascending order. -/
  ascending : mapping.Pairwise (· ≤ ·)
  /-- The ranks are ranks of available nodes. -/
  ranks : ∀ rank ∈ mapping, mask[rank]? = some true
  /-- No node is given more than the average share and the cost of the largest task. -/
  bounded : ∀ node, mask[node]? = some true → ∀ largest, (∀ cost ∈ taskCosts, cost ≤ largest) →
    nodeCosts mapping taskCosts node ≤ taskCosts.sum / (mask.count true : Nat) + largest

/-- With an available node the mapping of `rebalance_tasks` distributes the costs. -/
theorem rebalanceMapping_distributed {taskCosts : List ℚ} (nonempty : taskCosts ≠ [])
    (nonneg : ∀ cost ∈ taskCosts, 0 ≤ cost) (available : true ∈ mask) :
    ∃ mapping, rebalanceMapping taskCosts mask = some mapping ∧
      Distributed mask taskCosts mapping := by
  have active : 0 < mask.count true := List.count_pos_iff.mpr available
  have count : (0 : ℚ) < (mask.count true : Nat) := by exact_mod_cast active
  have positive : 0 ≤ taskCosts.sum / (mask.count true : Nat) :=
    div_nonneg (List.sum_nonneg nonneg) (le_of_lt count)
  have summed : taskCosts.foldl (· + ·) ((0 : Nat) : ℚ) = taskCosts.sum := by
    rw [Nat.cast_zero, List.sum_eq_foldl]
  have begin_ : availableBefore mask 0 = 0 := rfl
  obtain ⟨first, found, -, activeFirst, before⟩ :=
    @skipInactive_spec mask 0 (by rw [begin_]; exact active)
  rw [begin_] at before
  have reached : taskCosts.sum / (mask.count true : Nat) =
      taskCosts.sum / (mask.count true : Nat) * (availableBefore mask first + 1 : Nat) := by
    rw [before, Nat.zero_add, Nat.cast_one, mul_one]
  have total : ((0 : Nat) : ℚ) + taskCosts.sum =
      taskCosts.sum / (mask.count true : Nat) * (mask.count true : Nat) := by
    rw [Nat.cast_zero, zero_add, div_mul_cancel₀ _ (ne_of_gt count)]
  have served (largest : ℚ) (costs : ∀ cost ∈ taskCosts, cost ≤ largest) :=
    have largestNonneg : 0 ≤ largest := by
      obtain ⟨cost, member⟩ := List.exists_mem_of_ne_nil taskCosts nonempty
      exact le_trans (nonneg cost member) (costs cost member)
    assignTasks_served positive largestNonneg
      (fun cost member => ⟨nonneg cost member, costs cost member⟩) activeFirst reached total
  obtain ⟨mapping, assigned, whole⟩ := served taskCosts.sum fun cost member =>
    List.single_le_sum nonneg cost member
  have computed : rebalanceMapping taskCosts mask = some mapping := by
    unfold rebalanceMapping
    rw [if_neg (by omega), summed]
    simp only [found, assigned, Option.bind_eq_bind, Option.bind_some]
  refine ⟨mapping, computed, whole.length, whole.ascending, fun rank member =>
    (whole.ranks rank member).2, fun node activeNode largest costs => ?_⟩
  obtain ⟨mapping', assigned', bounds⟩ := served largest costs
  rw [assigned] at assigned'
  obtain rfl := Option.some.inj assigned'
  have largestNonneg : 0 ≤ largest := by
    obtain ⟨cost, member⟩ := List.exists_mem_of_ne_nil taskCosts nonempty
    exact le_trans (nonneg cost member) (costs cost member)
  rcases Nat.lt_trichotomy node first with earlier | here | later
  · have zero : nodeCosts mapping taskCosts node = 0 := by
      apply nodeCosts_of_notMem
      intro member
      have beyond := (bounds.ranks node member).1
      omega
    rw [zero]
    linarith
  · subst here
    rcases bounds.current with zero | within
    · rw [zero]
      linarith
    · rw [Nat.cast_zero, zero_add] at within
      linarith
  · exact bounds.later node later

/-- `rebalance_tasks` encodes a mapping that distributes the costs of all tasks over the available
nodes, and reads nothing past the end of the mask. -/
theorem rebalanceTasks_distributed {old : TreeSchedulingPolicy} {taskCosts : List ℚ}
    (tasks : taskCosts.length = 2 ^ old.granularity) (nonneg : ∀ cost ∈ taskCosts, 0 ≤ cost)
    (available : true ∈ mask) :
    ∃ mapping, rebalanceMapping taskCosts mask = some mapping ∧
      Distributed mask taskCosts mapping ∧
      rebalanceTasks old taskCosts mask =
        (toDecisionTree (1 <<< old.root.layer) mapping).map fun tree =>
          ⟨old.root, old.granularity, tree⟩ := by
  have nonempty : taskCosts ≠ [] := by
    rintro rfl
    have positive := Nat.two_pow_pos old.granularity
    rw [← tasks] at positive
    exact absurd positive (Nat.lt_irrefl 0)
  obtain ⟨mapping, computed, distributed⟩ :=
    rebalanceMapping_distributed nonempty nonneg available
  refine ⟨mapping, computed, distributed, ?_⟩
  unfold rebalanceTasks
  rw [if_neg (by rw [Nat.shiftLeft_eq, Nat.one_mul, tasks]; simp), computed]
  cases built : toDecisionTree (1 <<< old.root.layer) mapping with
  | none => simp [built]
  | some tree => simp [built]

/-- Four tasks on three nodes, of which the last one is not available. -/
theorem rebalanceTasks_distributed_three :
    ∃ mapping, rebalanceMapping [(3 : ℚ), 0, 1 / 2, 5] [true, true, false] = some mapping ∧
      Distributed [true, true, false] [3, 0, 1 / 2, 5] mapping ∧
      rebalanceTasks ⟨getRootOfNetworkSize 3, 2, ⟨[]⟩⟩ [(3 : ℚ), 0, 1 / 2, 5] [true, true, false] =
        (toDecisionTree (1 <<< (getRootOfNetworkSize 3).layer) mapping).map fun tree =>
          ⟨getRootOfNetworkSize 3, 2, tree⟩ :=
  @rebalanceTasks_distributed [true, true, false] ⟨getRootOfNetworkSize 3, 2, ⟨[]⟩⟩
    [3, 0, 1 / 2, 5] rfl (by norm_num) (by decide)

/-- The mapping of `rebalance_tasks` is read back from its policy. -/
theorem rebalanceTasks_read {old : TreeSchedulingPolicy} {taskCosts : List ℚ}
    (root : old.root = getRootOfNetworkSize mask.length)
    (enough : height mask.length ≤ old.granularity)
    (tasks : taskCosts.length = 2 ^ old.granularity) (nonneg : ∀ cost ∈ taskCosts, 0 ≤ cost)
    (available : true ∈ mask) :
    ∃ mapping policy, Distributed mask taskCosts mapping ∧
      rebalanceTasks old taskCosts mask = some policy ∧
      ∃ bound, ∀ fuel ≥ bound, policy.taskDistributionMapping fuel = some mapping := by
  obtain ⟨mapping, -, distributed, made⟩ :=
    @rebalanceTasks_distributed mask old taskCosts tasks nonneg available
  have length : mapping.length = 2 ^ old.granularity := distributed.length.trans tasks
  have ranks : ∀ rank ∈ mapping, rank < mask.length := fun rank found =>
    (List.getElem?_eq_some_iff.mp (distributed.ranks rank found)).1
  obtain ⟨tree, built, follows⟩ := exists_follows length enough
  rw [← root] at built
  refine ⟨mapping, _, distributed, ?_, _, fun fuel long => taskDistributionMapping_ascending follows
    rfl length distributed.ascending (ranks_lt_two_pow ranks) long⟩
  rw [made, built, root]
  rfl

/-! ## Costs from loads -/

/-- Nonnegative loads have nonnegative averages. -/
theorem averageCosts_nonneg {state : List ℚ} {avg : ℚ} (loads : ∀ load ∈ state, 0 ≤ load)
    (nonneg : 0 ≤ avg) (oldShare : List Nat) :
    ∀ cost ∈ averageCosts state oldShare avg, 0 ≤ cost := by
  unfold averageCosts
  intro cost found
  obtain ⟨i, inside, rfl⟩ := List.mem_iff_getElem.mp found
  rw [List.getElem_zipWith]
  split
  · exact nonneg
  · exact div_nonneg (loads _ (List.getElem_mem _)) (Nat.cast_nonneg _)

/-- Counting the tasks of the nodes returns for ranks of nodes. -/
theorem exists_oldShare {size : Nat} {mapping : List Nat} (ranks : ∀ rank ∈ mapping, rank < size)
    (counts : List Nat) :
    ∃ oldShare, mapping.foldlM
        (fun (counts : List Nat) cur =>
          if cur < size then some (counts.modify cur (· + 1)) else none) counts = some oldShare ∧
      oldShare.length = counts.length := by
  induction mapping generalizing counts with
  | nil => exact ⟨counts, rfl, rfl⟩
  | cons cur mapping ih =>
    obtain ⟨inside, rest⟩ := List.forall_mem_cons.mp ranks
    obtain ⟨oldShare, counted, length⟩ := ih rest (counts.modify cur (· + 1))
    refine ⟨oldShare, ?_, by rw [length, List.length_modify]⟩
    rw [List.foldlM_cons, if_pos inside]
    exact counted

/-- For nonnegative loads of the nodes `create_rebalanced` makes a policy that distributes the
estimated costs of the tasks over the available nodes. -/
theorem createRebalancedLoad_distributed {old : TreeSchedulingPolicy} {state : List ℚ} {fuel : Nat}
    {before : List Nat} (root : old.root = getRootOfNetworkSize mask.length)
    (enough : height mask.length ≤ old.granularity) (size : state.length = mask.length)
    (loads : ∀ load ∈ state, 0 ≤ load) (available : true ∈ mask)
    (read : old.taskDistributionMapping fuel = some before)
    (ranks : ∀ rank ∈ before, rank < mask.length) :
    ∃ taskCosts mapping policy, createRebalancedLoad old state mask fuel = some policy ∧
      Distributed mask taskCosts mapping ∧
      ∃ bound, ∀ fuel ≥ bound, policy.taskDistributionMapping fuel = some mapping := by
  rw [← size] at ranks
  obtain ⟨oldShare, counted, length⟩ :=
    exists_oldShare ranks (List.replicate state.length 0)
  rw [List.length_replicate] at length
  have nonneg : 0 ≤ state.foldl (· + ·) ((0 : Nat) : ℚ) / (before.length : ℚ) := by
    rw [Nat.cast_zero, ← List.sum_eq_foldl]
    exact div_nonneg (List.sum_nonneg loads) (Nat.cast_nonneg _)
  have averages := averageCosts_nonneg loads nonneg oldShare
  have all : (averageCosts state oldShare
      (state.foldl (· + ·) ((0 : Nat) : ℚ) / (before.length : ℚ))).length = state.length := by
    unfold averageCosts
    rw [List.length_zipWith, length, Nat.min_self]
  generalize averaged : averageCosts state oldShare
    (state.foldl (· + ·) ((0 : Nat) : ℚ) / (before.length : ℚ)) = costs at averages all
  have estimated : before.mapM (fun cur => costs[cur]?) =
      some (before.map fun cur => costs.getD cur 0) := by
    apply mapM_eq_some_map
    intro cur found
    have inside : cur < costs.length := all ▸ ranks cur found
    rw [List.getD_eq_getElem?_getD, List.getElem?_eq_getElem inside, Option.getD_some]
  have tasks : (before.map fun cur => costs.getD cur 0).length = 2 ^ old.granularity := by
    rw [List.length_map, length_taskDistributionMapping read]
  have costsNonneg : ∀ cost ∈ before.map fun cur => costs.getD cur 0, 0 ≤ cost := by
    intro cost found
    obtain ⟨cur, member, rfl⟩ := List.mem_map.mp found
    have inside : cur < costs.length := all ▸ ranks cur member
    rw [List.getD_eq_getElem?_getD, List.getElem?_eq_getElem inside, Option.getD_some]
    exact averages _ (List.getElem_mem inside)
  obtain ⟨mapping, policy, distributed, made, readBack⟩ :=
    rebalanceTasks_read root enough tasks costsNonneg available
  refine ⟨_, mapping, policy, ?_, distributed, readBack⟩
  have valid : ∀ load ∈ state, ((0 : Nat) : ℚ) ≤ load := by
    simpa using loads
  unfold createRebalancedLoad
  rw [if_neg (not_not.mpr size), if_neg (not_not.mpr valid), read]
  simp only [Option.bind_eq_bind, Option.bind_some, counted, averaged, estimated, made]

end TreeSchedulingPolicy

end AllScale
