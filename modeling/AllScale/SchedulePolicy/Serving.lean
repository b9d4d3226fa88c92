import AllScale.SchedulePolicy.Availability
import AllScale.SchedulePolicy.Dispatch

/-!
# Policies that serve all nodes

A policy that gives every node of the network a task, in ascending order, is what the localities
start with. Rebalancing by task times makes a policy of this kind from one of this kind, and under
each of them every dispatch ends at its target.
-/

namespace AllScale

open HierarchyAddress

namespace TreeSchedulingPolicy

variable {size : Nat} {mapping : List Nat} {policy : TreeSchedulingPolicy}

/-- A policy of a mapping in ascending order that gives every node a task. -/
structure Serves (size : Nat) (mapping : List Nat) (policy : TreeSchedulingPolicy) : Prop where
  made : policy.Made size mapping
  ascending : mapping.Pairwise (· ≤ ·)
  all : ∀ node, node ∈ mapping ↔ node < size

/-- The way of every path stays in the network under a policy that serves all nodes. -/
theorem Serves.wayInside (serves : policy.Serves size mapping) :
    WayInside size (planOf mapping (height size) policy.granularity) :=
  fun _ _ visits => rank_lt_of_visits serves.ascending serves.made.tasks serves.made.ranks visits

/-- A policy that serves all nodes guides the dispatch. -/
theorem Serves.guides (serves : policy.Serves size mapping) :
    (SchedulingPolicy.tree policy).Guides size :=
  serves.made.follows.guides serves.wayInside

/-- Under a policy that serves all nodes every dispatch ends at its target. -/
theorem Serves.dispatches (serves : policy.Serves size mapping) :
    Dispatches size (.tree policy) ∧ Delivers size policy :=
  ⟨serves.guides.dispatches, serves.made.follows.delivers serves.wayInside⟩

/-- The mapping of a policy that serves all nodes is read back from it. -/
theorem Serves.read (serves : policy.Serves size mapping) {fuel : Nat}
    (enough : policy.granularity + height size < fuel) :
    policy.taskDistributionMapping fuel = some mapping :=
  taskDistributionMapping_ascending serves.made.follows rfl serves.made.tasks serves.ascending
    (ranks_lt_two_pow serves.made.ranks) enough

/-- An equal distribution of enough tasks gives every node a task. -/
theorem Balanced.mem_iff {tasks : Nat} (balanced : Balanced size tasks mapping)
    (enough : size ≤ tasks) (node : Nat) : node ∈ mapping ↔ node < size := by
  refine ⟨balanced.ranks node, fun inside => List.count_pos_iff.mp ?_⟩
  have share : 0 < tasks / size := Nat.div_pos enough (Nat.lt_of_le_of_lt (Nat.zero_le _) inside)
  rcases balanced.shares node inside with least | more <;> omega

/-- The policy with which the localities start serves all nodes. -/
theorem exists_serves_createUniform (nodes : 0 < size) :
    ∃ policy mapping, SchedulingPolicy.createUniform (List.replicate size true) =
        .ok (.tree policy) ∧
      policy.Serves size mapping ∧ policy.granularity = max (ceilLog2 size + 3) 5 := by
  obtain ⟨mapping, policy, given, balanced, created, granularity, follows⟩ :=
    createUniformMask_eq (leading_replicate size) (by rwa [List.count_replicate_self])
      (max (ceilLog2 size + 3) 5)
  rw [List.count_replicate_self] at balanced
  rw [List.length_replicate] at given balanced granularity
  rw [ceilLog2_eq] at given balanced created granularity ⊢
  have level : max (height size) (max (height size + 3) 5) = max (height size + 3) 5 := by omega
  rw [level] at given balanced granularity
  have whole : size ≤ 2 ^ max (height size + 3) 5 := by
    rw [← height_le_iff]
    omega
  -- the mapping that is encoded is the equal distribution
  obtain ⟨root, tree⟩ : policy.root = getRootOfNetworkSize size ∧
      toDecisionTree (1 <<< policy.root.layer) mapping = some policy.tree := by
    have made := created
    unfold createUniformMask at made
    rw [List.length_replicate, List.count_replicate_self, if_neg (by omega),
      ceilLog2_eq] at made
    simp only [level, Nat.shiftLeft_eq, Nat.one_mul, given, Option.bind_eq_bind, Option.bind_some,
      Option.bind_eq_some_iff, Option.some.injEq] at made
    obtain ⟨tree, built, rfl⟩ := made
    refine ⟨rfl, ?_⟩
    rw [layer_getRootOfNetworkSize, Nat.shiftLeft_eq, Nat.one_mul, built]
  refine ⟨policy, mapping, ?_, ⟨⟨root, ?_, ?_, balanced.ranks, tree⟩, balanced.ascending,
    balanced.mem_iff whole⟩, granularity⟩
  · unfold SchedulingPolicy.createUniform
    simp only [List.length_replicate, ceilLog2_eq, created]
    rfl
  · rw [granularity, height_le_iff]
    exact whole
  · rw [granularity, balanced.length]

section Rebalance

variable {F : Type} [NatCast F] [Add F] [Sub F] [Mul F] [Div F] [OfScientific F] [LT F]
  [DecidableLT F]

/-- Rebalancing by task times makes a policy that serves all nodes from one that does, and however
long it may take to read the old mapping, no other one. -/
theorem Serves.exists_createRebalanced (undefined : UndefinedAverage F) {sqrt : F → F}
    (margins : MarginNotNegative sqrt) (getTime : TaskPath → F) {mask : List Bool}
    (serves : policy.Serves mask.length mapping) (nodes : 0 < mask.length)
    (fits : 2 ^ policy.granularity < 2 ^ 64) :
    ∃ policy' mapping', policy'.Serves mask.length mapping' ∧
      policy'.granularity = policy.granularity ∧
      (∀ fuel > policy.granularity + height mask.length,
        createRebalanced sqrt policy getTime mask fuel = some policy') ∧
      ∀ fuel rebalanced, createRebalanced sqrt policy getTime mask fuel = some rebalanced →
        rebalanced = policy' := by
  obtain ⟨measured, after, returned, computed, length, same, order⟩ : ∃ measured after,
      measure sqrt policy.granularity getTime mask mapping = some measured ∧
      measured.redistribute mapping = some after ∧ after.length = 2 ^ policy.granularity ∧
      (∀ node, node ∈ after ↔ node ∈ mapping) ∧ (after = mapping ∨ after.Pairwise (· ≤ ·)) := by
    by_cases several : 2 ≤ mask.length
    · obtain ⟨measured, after, returned, rebalanced⟩ :=
        exists_rebalanced undefined sqrt getTime several serves.made.tasks serves.made.ranks fits
      exact ⟨measured, after, returned, rebalanced.computed, rebalanced.length, rebalanced.nodes,
        rebalanced.order⟩
    · have single : mask.length = 1 := by omega
      have ranks := serves.made.ranks
      rw [single] at ranks
      obtain ⟨measured, returned, computed⟩ :=
        redistribute_single margins getTime single serves.made.tasks ranks
      exact ⟨measured, mapping, returned, computed, serves.made.tasks, fun _ => Iff.rfl, .inl rfl⟩
  have ranks : ∀ rank ∈ after, rank < mask.length := fun rank found =>
    serves.made.ranks rank ((same rank).mp found)
  have ascending : after.Pairwise (· ≤ ·) := by
    rcases order with rfl | ascending
    · exact serves.ascending
    · exact ascending
  obtain ⟨tree, built, made⟩ := serves.made.exists_next length ranks
  have rebalanced {fuel : Nat} (read : policy.taskDistributionMapping fuel = some mapping) :
      createRebalanced sqrt policy getTime mask fuel =
        some ⟨policy.root, policy.granularity, tree⟩ := by
    rw [createRebalanced_eq, read, Option.bind_some, returned, Option.bind_some, computed,
      Option.bind_some, built, Option.map_some]
  refine ⟨_, after, ⟨made, ascending, fun node => (same node).trans (serves.all node)⟩, rfl,
    fun fuel enough => rebalanced (serves.read enough), fun fuel other given => ?_⟩
  have known := given
  rw [createRebalanced_eq] at known
  obtain ⟨before, read, -⟩ := Option.bind_eq_some_iff.mp known
  have more := taskDistributionMapping_mono read
    (Nat.le_add_right fuel (policy.granularity + height mask.length + 1))
  rw [serves.read (by omega)] at more
  cases more
  rw [rebalanced read] at given
  exact (Option.some.inj given).symm

end Rebalance

end TreeSchedulingPolicy

end AllScale
