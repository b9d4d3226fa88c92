import AllScale.Optimizer.GreedyPartition
import AllScale.Optimizer.Pareto

/-!
# Schedules for a number of nodes

`decide_schedule` moves work items between nodes. When the number of nodes changes all items are
redistributed, otherwise those of the slowest and the fastest nodes, and only when their times
differ enough. Whatever the measurements, comparisons and random numbers are, no item is lost.
-/

namespace AllScale

/-- `std::shuffle`, which does not determine the order. -/
structure Shuffle (α : Type) where
  /-- The shuffled list. -/
  shuffle : List α → List α
  /-- Shuffling is a permutation. -/
  perm : ∀ l, (shuffle l).Perm l

namespace InternodeOptimizer

open NodeLoad

variable {F W : Type}

section Code

/-- The tasks to be moved, the nodes that receive them and the items that stay. -/
structure Redistribution (F W : Type) where
  /-- `all_tasks`, with their costs. -/
  allTasks : List (F × W)
  /-- `expected_node_load`. -/
  expectedNodeLoad : List (NodeLoad F)
  /-- `new_schedule`, with the work items of every node. -/
  newSchedule : OrderedMap Nat (List W)

variable [NatCast F] [OfScientific F] [Add F] [Sub F] [Mul F] [Div F] [LT F] [LE F] [DecidableLT F]
  [DecidableLE F]

/-- `work_item_load` — the average load of the items of a node; `none` when `at` throws. -/
def workItemLoad (nodeMap : OrderedMap Nat (List W)) (nodeLoads : OrderedMap Nat F) :
    Option (OrderedMap Nat F) :=
  nodeLoads.entries.foldlM (fun load node => do
    let nodeTasks := (← nodeMap.find? node.1).length
    let taskAvgLoad := node.2 / (nodeTasks : F)
    let taskAvgLoad := if 0.001 < taskAvgLoad then taskAvgLoad else 0.001
    return load.update node.1 0.0 fun _ => taskAvgLoad) .empty

/-- All work items are moved to the first nodes. -/
def redistributeAll (canShuffle : Bool) (shuffle : Shuffle (F × W)) (nodes : Nat)
    (nodeMap : OrderedMap Nat (List W)) (load : OrderedMap Nat F) : Redistribution F W :=
  let allTasks := nodeMap.entries.flatMap fun workItems =>
    workItems.2.map fun wi => ((load.find? workItems.1).getD 0.0, wi)
  { allTasks := if canShuffle ∧ nodes > 1 then shuffle.shuffle allTasks else allTasks
    expectedNodeLoad := (List.range nodes).map fun i => ⟨i, 0.0⟩
    newSchedule := (List.range nodes).foldl (fun schedule i => schedule.update i [] fun _ => [])
      .empty }

/-- The work items of a node are moved, and the node receives items. -/
def Redistribution.move (self : Redistribution F W) (node : Nat) (cost : F) (workItems : List W) :
    Redistribution F W :=
  { self with
    expectedNodeLoad := self.expectedNodeLoad ++ [⟨node, 0.0⟩]
    allTasks := self.allTasks ++ workItems.map fun wi => (cost, wi) }

/-- The work items of a node stay. -/
def Redistribution.keep (self : Redistribution F W) (node : Nat) (workItems : List W) :
    Redistribution F W :=
  { self with
    newSchedule := workItems.foldl (fun schedule wi => schedule.update node [] (· ++ [wi]))
      self.newSchedule }

/-- The cost of the items of a node that are moved, which is scaled for the slowest nodes. -/
def movedCost (load nodeTimes : OrderedMap Nat F) (balanceTopN : Nat) (avgK : F)
    (it : (Nat × F) × Nat) : Option F :=
  let cost := (load.find? it.1.1).getD 0.0
  if it.2 < balanceTopN then (nodeTimes.find? it.1.1).map fun time => cost * (time / avgK)
  else some cost

/-- The body of the loop over the sorted times, with their positions: the items of the first and
the last nodes are moved, the others stay; `none` when `at` throws. -/
def redistributeNode (nodeMap : OrderedMap Nat (List W)) (load nodeTimes : OrderedMap Nat F)
    (balanceTopN balanceBottomK total : Nat) (avgK : F) (plan : Redistribution F W)
    (it : (Nat × F) × Nat) : Option (Redistribution F W) :=
  if it.2 < balanceTopN ∨ it.2 ≥ total - balanceBottomK then do
    let cost ← movedCost load nodeTimes balanceTopN avgK it
    return plan.move it.1.1 cost (← nodeMap.find? it.1.1)
  else do
    return plan.keep it.1.1 (← nodeMap.find? it.1.1)

/-- The work items of the slowest and the fastest nodes are moved between them when their times
differ enough. -/
def redistributeSome (sort : StdSort (Nat × F)) (shuffle : Shuffle (F × W))
    (balanceTopN balanceBottomK : Nat) (nodeMap : OrderedMap Nat (List W))
    (load nodeTimes : OrderedMap Nat F) : Option (Redistribution F W) := do
  let size := nodeTimes.entries.length
  let avg := nodeTimes.entries.foldl (fun avg nt => avg + nt.2) 0.0 / (size : F)
  let stddevSq := nodeTimes.entries.foldl (fun sum nt => sum + (nt.2 - avg) * (nt.2 - avg)) 0.0 /
    ((size - 1 : Nat) : F)
  let threshold := stddevSq * 1.41421356237
  let sorted := sort.sort (fun nt1 nt2 => nt1.2 > nt2.2) nodeTimes.entries
  let avgN := (sorted.take balanceTopN).foldl (fun avg nt => avg + nt.2) 0.0 / (balanceTopN : F)
  let avgK := (sorted.reverse.take balanceBottomK).foldl (fun avg nt => avg + nt.2) 0.0 /
    (balanceBottomK : F)
  let diff := (avgN - avgK) * (avgN - avgK)
  if diff ≥ threshold ∧ threshold > 0.01 then
    let plan ← sorted.zipIdx.foldlM
      (redistributeNode nodeMap load nodeTimes balanceTopN balanceBottomK sorted.length avgK)
      ⟨[], [], .empty⟩
    return { plan with allTasks := shuffle.shuffle plan.allTasks }
  else return ⟨[], [], .empty⟩

/-- All work items are redistributed when the number of nodes changes, on demand, and when there
are not enough nodes to compare. -/
def RedistributesAll (nodeLoads nodeTimes : OrderedMap Nat F) (inoKnobs : InoKnobs)
    (distributeRandomly : Bool) (balanceTopN balanceBottomK : Nat) : Prop :=
  nodeLoads.entries.length ≠ inoKnobs.uNodes ∨ distributeRandomly ∨
    nodeTimes.entries.length < balanceTopN + balanceBottomK

instance decidableRedistributesAll (nodeLoads nodeTimes : OrderedMap Nat F) (inoKnobs : InoKnobs)
    (distributeRandomly : Bool) (balanceTopN balanceBottomK : Nat) :
    Decidable (RedistributesAll nodeLoads nodeTimes inoKnobs distributeRandomly balanceTopN
      balanceBottomK) :=
  inferInstanceAs (Decidable (_ ∨ _ ∨ _))

/-- `internode_optimizer_t::decide_schedule`; `canShuffle` is `CAN_SHUFFLE`, `none` when `at`
throws. -/
def decideSchedule (canShuffle : Bool) (sort : StdSort (Nat × F)) (shuffle : Shuffle (F × W))
    (nodeMap : OrderedMap Nat (List W)) (nodeLoads nodeTimes : OrderedMap Nat F)
    (inoKnobs : InoKnobs) (distributeRandomly : Bool) (balanceTopN balanceBottomK : Nat) :
    Option (OrderedMap Nat (List W)) := do
  let load ← workItemLoad nodeMap nodeLoads
  let plan ←
    if RedistributesAll nodeLoads nodeTimes inoKnobs distributeRandomly balanceTopN
        balanceBottomK then
      some (redistributeAll canShuffle shuffle inoKnobs.uNodes nodeMap load)
    else redistributeSome sort shuffle balanceTopN balanceBottomK nodeMap load nodeTimes
  let newSchedule := partitionTasks plan.expectedNodeLoad plan.allTasks plan.newSchedule
  return newSchedule.filter fun workItems => !workItems.isEmpty

end Code

/-! ## What is redistributed -/

/-- A redistribution conserves work items: they are moved or stay, and all nodes are allowed. -/
structure Conserves (plan : Redistribution F W) (items : List W) (allowed : Nat → Prop) : Prop where
  /-- Every item is moved or stays, once. -/
  items : (plan.allTasks.map Prod.snd ++ plan.newSchedule.items).Perm items
  /-- Items are moved only when there is a node to receive them. -/
  receivers : plan.allTasks ≠ [] → plan.expectedNodeLoad ≠ []
  /-- The nodes that receive items are allowed. -/
  expected : ∀ node ∈ plan.expectedNodeLoad.map NodeLoad.node, allowed node
  /-- The nodes on which items stay are allowed. -/
  stay : ∀ node ∈ plan.newSchedule.keys, allowed node

/-- Shuffling the moved items conserves what is conserved. -/
theorem Conserves.shuffle {plan : Redistribution F W} {items : List W} {allowed : Nat → Prop}
    (conserves : Conserves plan items allowed) (shuffle : Shuffle (F × W)) :
    Conserves { plan with allTasks := shuffle.shuffle plan.allTasks } items allowed where
  items := (((shuffle.perm plan.allTasks).map Prod.snd).append_right _).trans conserves.items
  receivers nonempty := conserves.receivers fun empty => nonempty (by
    have perm := shuffle.perm plan.allTasks
    rw [empty] at perm
    rw [empty]
    exact perm.eq_nil)
  expected := conserves.expected
  stay := conserves.stay

/-- The schedule of a conserving redistribution has all items on allowed nodes. -/
theorem Conserves.partitionTasks [Add F] [LT F] [DecidableLT F] {plan : Redistribution F W}
    {items : List W} {allowed : Nat → Prop} (conserves : Conserves plan items allowed) :
    (partitionTasks plan.expectedNodeLoad plan.allTasks plan.newSchedule).items.Perm items ∧
      ∀ node ∈ (NodeLoad.partitionTasks plan.expectedNodeLoad plan.allTasks plan.newSchedule).keys,
        allowed node := by
  obtain ⟨placed, keys⟩ := partitionTasks_spec conserves.receivers plan.newSchedule
  refine ⟨placed.trans conserves.items, fun node found => ?_⟩
  rcases keys node found with stays | receives
  · exact conserves.stay node stays
  · exact conserves.expected node receives

/-- Leaving out the nodes without items conserves the items. -/
theorem Conserves.schedule [Add F] [LT F] [DecidableLT F] {plan : Redistribution F W}
    {items : List W} {allowed : Nat → Prop} (conserves : Conserves plan items allowed) :
    ((NodeLoad.partitionTasks plan.expectedNodeLoad plan.allTasks plan.newSchedule).filter
        fun workItems => !workItems.isEmpty).items.Perm items ∧
      ∀ node ∈ ((NodeLoad.partitionTasks plan.expectedNodeLoad plan.allTasks
        plan.newSchedule).filter fun workItems => !workItems.isEmpty).keys, allowed node := by
  obtain ⟨placed, nodes⟩ := conserves.partitionTasks
  refine ⟨by rw [OrderedMap.items_filter]; exact placed, fun node found => nodes node ?_⟩
  exact (List.filter_sublist.map Prod.fst).mem found

/-- Giving nodes empty lists adds the nodes and no items. -/
theorem foldl_update_nil (nodes : List Nat) {schedule : OrderedMap Nat (List W)}
    (empty : schedule.items = []) :
    (nodes.foldl (fun schedule i => schedule.update i [] fun _ => []) schedule).items = [] ∧
      ∀ key ∈ (nodes.foldl (fun schedule i => schedule.update i [] fun _ => []) schedule).keys,
        key ∈ schedule.keys ∨ key ∈ nodes := by
  induction nodes generalizing schedule with
  | nil => exact ⟨empty, fun key found => .inl found⟩
  | cons node nodes ih =>
    have still : (schedule.update node [] fun _ => []).items = [] := by
      apply List.eq_nil_iff_forall_not_mem.mpr
      intro item found
      obtain ⟨key, list, value, there⟩ := OrderedMap.mem_items.mp found
      by_cases here : key = node
      · rw [here, OrderedMap.find?_update_self, Option.some.injEq] at value
        rw [← value] at there
        exact List.not_mem_nil there
      · rw [OrderedMap.find?_update_of_ne _ here] at value
        exact List.not_mem_nil (empty ▸ OrderedMap.mem_items.mpr ⟨key, list, value, there⟩)
    obtain ⟨items, keys⟩ := ih still
    refine ⟨items, fun key found => ?_⟩
    rcases keys key found with before | later
    · rcases OrderedMap.mem_keys_update.mp before with rfl | before
      · exact .inr List.mem_cons_self
      · exact .inl before
    · exact .inr (List.mem_cons_of_mem _ later)

/-- The items of some nodes of a node map. -/
def itemsOf (nodeMap : OrderedMap Nat (List W)) (nodes : List Nat) : List W :=
  nodes.flatMap fun node => (nodeMap.find? node).getD []

/-- The items of all nodes are those of the node map. -/
theorem itemsOf_keys (nodeMap : OrderedMap Nat (List W)) :
    itemsOf nodeMap nodeMap.keys = nodeMap.items := by
  unfold itemsOf OrderedMap.items OrderedMap.keys
  rw [List.flatMap_map]
  apply List.flatMap_congr
  intro entry found
  rw [OrderedMap.find?_of_mem (show (entry.1, entry.2) ∈ _ from found), Option.getD_some]

/-- Items that stay on a node are added to its list. -/
theorem foldl_push (node : Nat) (workItems : List W) (schedule : OrderedMap Nat (List W)) :
    (workItems.foldl (fun schedule wi => schedule.update node [] (· ++ [wi])) schedule).items.Perm
        (workItems ++ schedule.items) ∧
      ∀ key ∈ (workItems.foldl (fun schedule wi =>
        schedule.update node [] (· ++ [wi])) schedule).keys, key = node ∨ key ∈ schedule.keys := by
  induction workItems generalizing schedule with
  | nil => exact ⟨.refl _, fun key found => .inr found⟩
  | cons wi workItems ih =>
    obtain ⟨items, keys⟩ := ih (schedule.update node [] (· ++ [wi]))
    refine ⟨items.trans ?_, fun key found => ?_⟩
    · exact ((schedule.items_push node wi).append_left _).trans List.perm_middle
    · rcases keys key found with here | before
      · exact .inl here
      · exact OrderedMap.mem_keys_update.mp before

/-- Keeping the items of a node conserves them. -/
theorem Conserves.keep {plan : Redistribution F W} {items : List W} {allowed : Nat → Prop}
    (conserves : Conserves plan items allowed) {node : Nat} (here : allowed node)
    (workItems : List W) : Conserves (plan.keep node workItems) (items ++ workItems) allowed := by
  obtain ⟨pushed, keys⟩ := foldl_push node workItems plan.newSchedule
  refine ⟨?_, conserves.receivers, conserves.expected, fun other found => ?_⟩
  · refine (pushed.append_left _).trans ?_
    rw [← List.append_assoc]
    refine (List.perm_append_comm.append_right _).trans ?_
    rw [List.append_assoc]
    exact List.perm_append_comm.trans (conserves.items.append_right _)
  · rcases keys other found with rfl | before
    · exact here
    · exact conserves.stay other before

variable [OfScientific F]

/-- Moving the items of a node conserves them. -/
theorem Conserves.move {plan : Redistribution F W} {items : List W} {allowed : Nat → Prop}
    (conserves : Conserves plan items allowed) {node : Nat} (here : allowed node) (cost : F)
    (workItems : List W) :
    Conserves (plan.move node cost workItems) (items ++ workItems) allowed := by
  have moved : (workItems.map fun wi => (cost, wi)).map Prod.snd = workItems := by
    rw [List.map_map]
    exact List.map_id _
  refine ⟨?_, fun _ => List.append_ne_nil_of_right_ne_nil _ (List.cons_ne_nil _ _),
    fun other found => ?_, conserves.stay⟩
  · show (List.map Prod.snd (plan.allTasks ++ _) ++ plan.newSchedule.items).Perm _
    rw [List.map_append, moved, List.append_assoc]
    refine (List.perm_append_comm.append_left _).trans ?_
    rw [← List.append_assoc]
    exact conserves.items.append_right _
  · rcases List.mem_append.mp (List.map_append ▸ found) with before | last
    · exact conserves.expected other before
    · rw [List.mem_singleton.mp last]
      exact here

/-- Redistributing everything conserves the items, on the first nodes. -/
theorem redistributeAll_conserves (canShuffle : Bool) (shuffle : Shuffle (F × W)) {nodes : Nat}
    (positive : 0 < nodes) (nodeMap : OrderedMap Nat (List W)) (load : OrderedMap Nat F) :
    Conserves (redistributeAll canShuffle shuffle nodes nodeMap load) nodeMap.items
      (· < nodes) := by
  have collected : (nodeMap.entries.flatMap fun workItems =>
      workItems.2.map fun wi => ((load.find? workItems.1).getD 0.0, wi)).map Prod.snd =
        nodeMap.items := by
    unfold OrderedMap.items
    rw [List.map_flatMap]
    congr 1
    funext workItems
    rw [List.map_map]
    exact List.map_id _
  obtain ⟨empty, keys⟩ := foldl_update_nil (List.range nodes)
    (show (OrderedMap.empty : OrderedMap Nat (List W)).items = [] from rfl)
  let plan : Redistribution F W :=
    { allTasks := nodeMap.entries.flatMap fun workItems =>
        workItems.2.map fun wi => ((load.find? workItems.1).getD 0.0, wi)
      expectedNodeLoad := (List.range nodes).map fun i => ⟨i, 0.0⟩
      newSchedule := (List.range nodes).foldl (fun schedule i => schedule.update i [] fun _ => [])
        .empty }
  have unshuffled : Conserves plan nodeMap.items (· < nodes) := by
    refine ⟨?_, fun _ absent => ?_, fun node found => ?_, fun node found => ?_⟩
    · rw [collected, empty, List.append_nil]
    · have length := congrArg List.length absent
      rw [List.length_map, List.length_range, List.length_nil] at length
      omega
    · obtain ⟨load, there, rfl⟩ := List.mem_map.mp found
      obtain ⟨i, below, rfl⟩ := List.mem_map.mp there
      exact List.mem_range.mp below
    · exact List.mem_range.mp ((keys node found).resolve_left List.not_mem_nil)
  have shuffles : redistributeAll canShuffle shuffle nodes nodeMap load =
      if canShuffle ∧ nodes > 1 then { plan with allTasks := shuffle.shuffle plan.allTasks }
      else plan := by
    unfold redistributeAll
    split <;> rfl
  rw [shuffles]
  split
  · exact unshuffled.shuffle shuffle
  · exact unshuffled

variable [Mul F] [Div F]

/-- A step of the loop over the sorted times conserves the items of the nodes that it has seen. -/
theorem redistributeNode_conserves {nodeMap : OrderedMap Nat (List W)}
    (load : OrderedMap Nat F) {nodeTimes : OrderedMap Nat F} {plan : Redistribution F W}
    {nodes : List Nat}
    (conserves : Conserves plan (itemsOf nodeMap nodes) (· ∈ nodeMap.keys))
    (balanceTopN balanceBottomK total : Nat) (avgK : F) {it : (Nat × F) × Nat}
    (known : it.1.1 ∈ nodeMap.keys) (timed : it.1.1 ∈ nodeTimes.keys) :
    ∃ plan', redistributeNode nodeMap load nodeTimes balanceTopN balanceBottomK total avgK plan it =
        some plan' ∧
      Conserves plan' (itemsOf nodeMap (nodes ++ [it.1.1])) (· ∈ nodeMap.keys) := by
  obtain ⟨workItems, items⟩ := OrderedMap.exists_find?_iff.mpr known
  obtain ⟨time, there⟩ := OrderedMap.exists_find?_iff.mpr timed
  have more : itemsOf nodeMap (nodes ++ [it.1.1]) = itemsOf nodeMap nodes ++ workItems := by
    unfold itemsOf
    rw [List.flatMap_append, List.flatMap_singleton, items, Option.getD_some]
  obtain ⟨cost, costs⟩ : ∃ cost, movedCost load nodeTimes balanceTopN avgK it = some cost := by
    unfold movedCost
    rw [there]
    split <;> exact ⟨_, rfl⟩
  rw [more]
  unfold redistributeNode
  rw [costs, items]
  split
  · exact ⟨_, rfl, conserves.move known cost workItems⟩
  · exact ⟨_, rfl, conserves.keep known workItems⟩

/-- The loop over the sorted times conserves the items of their nodes. -/
theorem foldlM_redistributeNode {nodeMap : OrderedMap Nat (List W)}
    (load : OrderedMap Nat F) {nodeTimes : OrderedMap Nat F} {plan : Redistribution F W}
    {nodes : List Nat}
    (conserves : Conserves plan (itemsOf nodeMap nodes) (· ∈ nodeMap.keys))
    (balanceTopN balanceBottomK total : Nat) (avgK : F) {list : List ((Nat × F) × Nat)}
    (known : ∀ it ∈ list, it.1.1 ∈ nodeMap.keys) (timed : ∀ it ∈ list, it.1.1 ∈ nodeTimes.keys) :
    ∃ plan', list.foldlM
        (redistributeNode nodeMap load nodeTimes balanceTopN balanceBottomK total avgK) plan =
        some plan' ∧
      Conserves plan' (itemsOf nodeMap (nodes ++ list.map fun it => it.1.1))
        (· ∈ nodeMap.keys) := by
  induction list generalizing plan nodes with
  | nil =>
    rw [List.map_nil, List.append_nil]
    exact ⟨plan, rfl, conserves⟩
  | cons it list ih =>
    obtain ⟨next, step, conserves'⟩ := redistributeNode_conserves load conserves balanceTopN
      balanceBottomK total avgK (known it List.mem_cons_self) (timed it List.mem_cons_self)
    rw [List.foldlM_cons, step, List.map_cons, List.append_cons]
    exact ih conserves' (fun later found => known later (List.mem_cons_of_mem _ found))
      fun later found => timed later (List.mem_cons_of_mem _ found)

variable [NatCast F] [LT F] [DecidableLT F]

omit [Mul F] in
/-- The loads of work items are defined when the nodes with a load are in the node map. -/
theorem exists_workItemLoad {nodeMap : OrderedMap Nat (List W)} {nodeLoads : OrderedMap Nat F}
    (keys : ∀ node ∈ nodeLoads.keys, node ∈ nodeMap.keys) :
    ∃ load, workItemLoad nodeMap nodeLoads = some load := by
  have loop (entries : List (Nat × F)) (keys : ∀ entry ∈ entries, entry.1 ∈ nodeMap.keys)
      (load : OrderedMap Nat F) : ∃ load', entries.foldlM (fun load node => do
        let nodeTasks := (← nodeMap.find? node.1).length
        let taskAvgLoad := node.2 / (nodeTasks : F)
        let taskAvgLoad := if 0.001 < taskAvgLoad then taskAvgLoad else 0.001
        return load.update node.1 0.0 fun _ => taskAvgLoad) load = some load' := by
    induction entries generalizing load with
    | nil => exact ⟨load, rfl⟩
    | cons entry entries ih =>
      obtain ⟨items, found⟩ := OrderedMap.exists_find?_iff.mpr (keys entry List.mem_cons_self)
      rw [List.foldlM_cons, found]
      exact ih (fun later there => keys later (List.mem_cons_of_mem _ there)) _
  exact loop _ (fun entry found => keys _ (List.mem_map_of_mem found)) _

variable [Add F] [Sub F] [LE F] [DecidableLE F]

/-- When the nodes with a time are in the node map, redistributing between the slowest and the
fastest of them conserves their items, or nothing is redistributed. -/
theorem redistributeSome_conserves (sort : StdSort (Nat × F)) (shuffle : Shuffle (F × W))
    (balanceTopN balanceBottomK : Nat) {nodeMap : OrderedMap Nat (List W)}
    (load : OrderedMap Nat F) {nodeTimes : OrderedMap Nat F}
    (timeKeys : ∀ node ∈ nodeTimes.keys, node ∈ nodeMap.keys) :
    ∃ plan, redistributeSome sort shuffle balanceTopN balanceBottomK nodeMap load nodeTimes =
        some plan ∧
      (plan = ⟨[], [], .empty⟩ ∨
        Conserves plan (itemsOf nodeMap nodeTimes.keys) (· ∈ nodeMap.keys)) := by
  unfold redistributeSome
  dsimp only
  split
  · have perm := sort.perm (fun nt1 nt2 => nt1.2 > nt2.2) nodeTimes.entries
    generalize sort.sort (fun nt1 nt2 => nt1.2 > nt2.2) nodeTimes.entries = sorted at perm ⊢
    have nodes : (sorted.zipIdx.map fun it => it.1.1).Perm nodeTimes.keys := by
      have values : (sorted.zipIdx.map fun it => it.1.1) = sorted.map Prod.fst := by
        exact List.map_map.symm.trans (congrArg _ (List.zipIdx_map_fst 0 sorted))
      rw [values]
      exact perm.map Prod.fst
    have timed (it : (Nat × F) × Nat) (found : it ∈ sorted.zipIdx) : it.1.1 ∈ nodeTimes.keys :=
      nodes.mem_iff.mp (List.mem_map_of_mem found)
    have start : Conserves (⟨[], [], .empty⟩ : Redistribution F W) (itemsOf nodeMap [])
        (· ∈ nodeMap.keys) :=
      ⟨.refl _, fun nonempty => absurd rfl nonempty, fun _ found => absurd found List.not_mem_nil,
        fun _ found => absurd found List.not_mem_nil⟩
    obtain ⟨plan, loop, conserves⟩ := foldlM_redistributeNode load start balanceTopN
      balanceBottomK sorted.length _ (fun it found => timeKeys _ (timed it found)) timed
    rw [loop]
    refine ⟨_, rfl, .inr (Conserves.shuffle ?_ shuffle)⟩
    have all : (itemsOf nodeMap ([] ++ sorted.zipIdx.map fun it => it.1.1)).Perm
        (itemsOf nodeMap nodeTimes.keys) := nodes.flatMap_right _
    exact { conserves with items := conserves.items.trans all }
  · exact ⟨_, rfl, .inl rfl⟩

/-- A schedule is computed when the nodes with a load or a time are in the node map. -/
theorem exists_decideSchedule (canShuffle : Bool) (sort : StdSort (Nat × F))
    (shuffle : Shuffle (F × W)) {nodeMap : OrderedMap Nat (List W)}
    {nodeLoads nodeTimes : OrderedMap Nat F}
    (loadKeys : ∀ node ∈ nodeLoads.keys, node ∈ nodeMap.keys)
    (timeKeys : ∀ node ∈ nodeTimes.keys, node ∈ nodeMap.keys) (inoKnobs : InoKnobs)
    (distributeRandomly : Bool) (balanceTopN balanceBottomK : Nat) :
    ∃ schedule, decideSchedule canShuffle sort shuffle nodeMap nodeLoads nodeTimes inoKnobs
      distributeRandomly balanceTopN balanceBottomK = some schedule := by
  obtain ⟨load, loads⟩ := exists_workItemLoad loadKeys
  obtain ⟨plan, found, -⟩ := redistributeSome_conserves sort shuffle balanceTopN balanceBottomK
    load timeKeys
  unfold decideSchedule
  rw [loads]
  simp only [Option.bind_eq_bind, Option.bind_some, found]
  split <;> exact ⟨_, rfl⟩

/-- For every node map, loads and times of exactly its nodes, a positive number of nodes to use and
all shuffles, `decide_schedule` returns a schedule, and when it is not empty, every work item of the
node map is in it once: on the first nodes when everything is redistributed, otherwise on nodes of
the node map. -/
theorem decideSchedule_conserves (canShuffle : Bool) (sort : StdSort (Nat × F))
    (shuffle : Shuffle (F × W)) {nodeMap : OrderedMap Nat (List W)}
    {nodeLoads nodeTimes : OrderedMap Nat F} (loadKeys : nodeLoads.keys = nodeMap.keys)
    (timeKeys : nodeTimes.keys = nodeMap.keys) {inoKnobs : InoKnobs}
    (positive : 0 < inoKnobs.uNodes) (distributeRandomly : Bool)
    (balanceTopN balanceBottomK : Nat) :
    ∃ schedule, decideSchedule canShuffle sort shuffle nodeMap nodeLoads nodeTimes inoKnobs
        distributeRandomly balanceTopN balanceBottomK = some schedule ∧
      (schedule.entries ≠ [] → schedule.items.Perm nodeMap.items ∧
        ∀ node ∈ schedule.keys,
          if RedistributesAll nodeLoads nodeTimes inoKnobs distributeRandomly balanceTopN
              balanceBottomK then
            node < inoKnobs.uNodes
          else node ∈ nodeMap.keys) := by
  obtain ⟨load, loads⟩ := exists_workItemLoad (fun node found => loadKeys ▸ found :
    ∀ node ∈ nodeLoads.keys, node ∈ nodeMap.keys)
  unfold decideSchedule
  rw [loads]
  by_cases all : RedistributesAll nodeLoads nodeTimes inoKnobs distributeRandomly balanceTopN
    balanceBottomK
  · have conserves := redistributeAll_conserves canShuffle shuffle positive nodeMap load
    simp only [if_pos all]
    exact ⟨_, rfl, fun _ => conserves.schedule⟩
  · obtain ⟨plan, planned, cases⟩ := redistributeSome_conserves sort shuffle balanceTopN
      balanceBottomK load fun node found => timeKeys ▸ found
    rw [timeKeys, itemsOf_keys] at cases
    simp only [if_neg all, Option.bind_eq_bind, Option.bind_some, planned]
    refine ⟨_, rfl, fun full => ?_⟩
    rcases cases with rfl | conserves
    · exact absurd rfl full
    · exact conserves.schedule

/-- Two nodes whose times differ. -/
theorem decideSchedule_conserves_two :
    let sort : StdSort (Nat × ℚ) := ⟨fun _ list => list, fun _ list => .refl list⟩
    let shuffle : Shuffle (ℚ × Char) := ⟨id, fun list => .refl list⟩
    let nodeMap : OrderedMap Nat (List Char) := ⟨[(0, ['a']), (1, ['b'])], by decide⟩
    let nodeTimes : OrderedMap Nat ℚ := ⟨[(0, 3), (1, 1)], by decide⟩
    ∃ schedule, decideSchedule true sort shuffle nodeMap nodeTimes nodeTimes ⟨2⟩ false 1 1 =
        some schedule ∧
      (schedule.entries ≠ [] → schedule.items.Perm ['a', 'b'] ∧
        ∀ node ∈ schedule.keys, if RedistributesAll nodeTimes nodeTimes ⟨2⟩ false 1 1 then
          node < 2 else node ∈ [0, 1]) := by
  intro sort shuffle nodeMap nodeTimes
  have loadKeys : nodeTimes.keys = nodeMap.keys := rfl
  exact decideSchedule_conserves true sort shuffle loadKeys loadKeys Nat.two_pos _ _ _

end InternodeOptimizer

end AllScale
