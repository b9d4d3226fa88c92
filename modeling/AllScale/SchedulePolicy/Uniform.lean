import Mathlib.Algebra.BigOperators.Group.List.Basic
import AllScale.SchedulePolicy.Mapping

/-!
# Uniform policies

`create_uniform` gives every node its share of the tasks of the granularity level, and one of the
remaining tasks to each of the first nodes. The mapping is in ascending order, so it is the one
that is read back from the policy.
-/

namespace AllScale

open TokenTree HierarchyAddress

namespace TreeSchedulingPolicy

variable {size share remainder first count : Nat}

/-! ## Masks -/

/-- The active nodes of a mask come first. -/
def Leading (mask : List Bool) : Prop :=
  mask.Pairwise fun earlier later => later = true → earlier = true

/-- When the active nodes come first, a mask consists of two blocks. -/
theorem Leading.eq_append {mask : List Bool} (leading : Leading mask) :
    mask = List.replicate (mask.count true) true ++ List.replicate (mask.count false) false := by
  induction mask with
  | nil => rfl
  | cons node mask ih =>
    obtain ⟨first, rest⟩ := List.pairwise_cons.mp leading
    cases node with
    | true =>
      rw [List.count_cons_self, List.count_cons_of_ne (by simp), List.replicate_succ,
        List.cons_append, ← ih rest]
    | false =>
      have inactive : ∀ later ∈ mask, false = later := fun later found => by
        cases later with
        | false => rfl
        | true => exact absurd (first true found rfl) (by simp)
      have zero : mask.count true = 0 := List.count_eq_zero.mpr fun found =>
        Bool.noConfusion (inactive true found)
      rw [List.count_cons_self, List.count_cons_of_ne (by simp), zero,
        List.count_eq_length.mpr inactive, List.replicate_zero, List.nil_append,
        List.replicate_succ, ← List.eq_replicate_of_mem fun later found =>
          (inactive later found).symm]

/-- When the active nodes come first, they are the ones below their number. -/
theorem Leading.active_iff {mask : List Bool} (leading : Leading mask) (i : Nat) :
    mask.getD i false = true ↔ i < mask.count true := by
  have blocks := leading.eq_append
  generalize mask.count true = active at blocks ⊢
  rw [blocks, List.getD_eq_getElem?_getD, List.getElem?_append, List.length_replicate]
  split
  · rename_i inside
    simp [inside]
  · rename_i outside
    simp only [outside, iff_false]
    rw [List.getElem?_replicate]
    split <;> simp

/-- When all active nodes are below their number, they come first. -/
theorem leading_of_bounded {mask : List Bool}
    (bounded : ∀ i, mask.getD i false = true → i < mask.count true) : Leading mask := by
  have behind : ∀ later ∈ mask.drop (mask.count true), later = false := by
    intro later found
    obtain ⟨i, at_⟩ := List.getElem?_of_mem found
    rw [List.getElem?_drop] at at_
    cases later with
    | false => rfl
    | true =>
      have below := bounded (mask.count true + i) (by rw [List.getD_eq_getElem?_getD, at_]; rfl)
      omega
  have zero : (mask.drop (mask.count true)).count true = 0 :=
    List.count_eq_zero.mpr fun found => Bool.noConfusion (behind true found)
  have whole := congrArg (List.count true) (List.take_append_drop (mask.count true) mask)
  rw [List.count_append, zero, Nat.add_zero] at whole
  have before : ∀ earlier ∈ mask.take (mask.count true), true = earlier := by
    apply List.count_eq_length.mp
    rw [whole, List.length_take, Nat.min_eq_left List.count_le_length]
  unfold Leading
  rw [← List.take_append_drop (mask.count true) mask, List.pairwise_append]
  refine ⟨?_, ?_, fun earlier found _ _ _ => (before earlier found).symm⟩
  · exact List.pairwise_of_forall_mem_list fun earlier found _ _ _ => (before earlier found).symm
  · apply List.pairwise_of_forall_mem_list
    intro _ _ later found active
    exact Bool.noConfusion ((behind later found).symm.trans active)

/-! ## Equal distributions -/

/-- The number of tasks a node is given. -/
def shareOf (share remainder i : Nat) : Nat := share + if i < remainder then 1 else 0

/-- When the first nodes are active, those from `first` on are given their shares one after the
other. -/
theorem distribute_eq {mask : List Bool} (active : ∀ i < first + count, mask.getD i false = true) :
    distribute mask share remainder (List.range' first count) (min first remainder) =
      (List.range' first count).flatMap fun i => List.replicate (shareOf share remainder i) i := by
  induction count generalizing first with
  | zero => rfl
  | succ count ih =>
    have unmasked : ¬ mask.getD first false = false := by
      rw [active first (by omega)]
      decide
    have rest := @ih (first + 1) fun i inside => active i (by omega)
    rw [List.range'_succ, distribute, if_neg unmasked, List.flatMap_cons]
    unfold shareOf
    by_cases extra : first < remainder
    · have given : min first remainder + 1 = min (first + 1) remainder := by omega
      rw [if_pos (by omega), if_pos extra, given, rest, List.replicate_succ']
      simp [shareOf]
    · have given : min first remainder = min (first + 1) remainder := by omega
      rw [if_neg (by omega), if_neg extra, given, rest]
      rfl

/-- As many tasks are given out as the shares add up to. -/
theorem length_shares (share remainder first count : Nat) :
    ((List.range' first count).flatMap fun i =>
        List.replicate (shareOf share remainder i) i).length =
      count * share + (min (first + count) remainder - min first remainder) := by
  induction count generalizing first with
  | zero => simp
  | succ count ih =>
    rw [List.range'_succ, List.flatMap_cons, List.length_append, List.length_replicate, ih,
      Nat.succ_mul]
    unfold shareOf
    split <;> omega

/-- Every node among those that are given tasks has its share. -/
theorem count_shares (share remainder : Nat) {first count node : Nat} (above : first ≤ node)
    (below : node < first + count) :
    ((List.range' first count).flatMap fun i =>
        List.replicate (shareOf share remainder i) i).count node =
      shareOf share remainder node := by
  induction count generalizing first with
  | zero => omega
  | succ count ih =>
    rw [List.range'_succ, List.flatMap_cons, List.count_append, List.count_replicate]
    by_cases here : node = first
    · subst here
      rw [if_pos (by simp), List.count_eq_zero_of_not_mem, Nat.add_zero]
      intro found
      obtain ⟨i, later, given⟩ := List.mem_flatMap.mp found
      have same := (List.mem_replicate.mp given).2
      have bound := (List.mem_range'_1.mp later).1
      omega
    · rw [if_neg (by simpa using fun same => here same.symm), Nat.zero_add]
      apply ih <;> omega

/-- The shares are given out in ascending order. -/
theorem ascending_shares (share remainder first count : Nat) :
    ((List.range' first count).flatMap fun i =>
      List.replicate (shareOf share remainder i) i).Pairwise (· ≤ ·) := by
  apply List.pairwise_flatMap.mpr
  constructor
  · intro i _
    simp
  · apply (List.pairwise_lt_range' (s := first) (n := count)).imp
    intro i j before a given b given'
    rw [(List.mem_replicate.mp given).2, (List.mem_replicate.mp given').2]
    omega

/-- An equal distribution of tasks over a number of nodes: the ranks in ascending order, and each as
often as its share. -/
structure Balanced (size tasks : Nat) (mapping : List Nat) : Prop where
  /-- Every task is given to a node. -/
  length : mapping.length = tasks
  /-- The ranks are in ascending order. -/
  ascending : mapping.Pairwise (· ≤ ·)
  /-- The ranks are ranks of nodes. -/
  ranks : ∀ rank ∈ mapping, rank < size
  /-- Every node is given its share, or one task more. -/
  shares : ∀ node < size,
    mapping.count node = tasks / size ∨ mapping.count node = tasks / size + 1

/-- `getEqualDistribution` gives out all tasks in equal shares when the active nodes come first. -/
theorem getEqualDistribution_balanced {mask : List Bool} (leading : Leading mask)
    (nodes : 0 < mask.count true) (tasks : Nat) :
    ∃ mapping, getEqualDistribution mask tasks = some mapping ∧
      Balanced (mask.count true) tasks mapping := by
  have listed : distribute mask (tasks / mask.count true) (tasks % mask.count true)
      (List.range (mask.count true)) 0 = (List.range' 0 (mask.count true)).flatMap fun i =>
        List.replicate (shareOf (tasks / mask.count true) (tasks % mask.count true) i) i := by
    have given := @distribute_eq (tasks / mask.count true) (tasks % mask.count true) 0
      (mask.count true) mask fun i inside => (leading.active_iff i).mpr (by omega)
    rw [Nat.zero_min] at given
    rwa [List.range_eq_range']
  generalize active : mask.count true = size at listed nodes ⊢
  have length : ((List.range' 0 size).flatMap fun i =>
      List.replicate (shareOf (tasks / size) (tasks % size) i) i).length = tasks := by
    have rest := Nat.mod_lt tasks nodes
    have whole := Nat.div_add_mod tasks size
    rw [length_shares]
    omega
  refine ⟨_, ?_, length, ascending_shares _ _ 0 size, fun rank found => ?_, fun node inside => ?_⟩
  · unfold getEqualDistribution
    simp only [active, listed, length, if_true]
  · obtain ⟨i, inside, given⟩ := List.mem_flatMap.mp found
    rw [(List.mem_replicate.mp given).2]
    have bound := (List.mem_range'_1.mp inside).2
    omega
  · rw [count_shares _ _ (Nat.zero_le node) (by omega)]
    unfold shareOf
    split <;> omega

/-- Where no node is masked, the active nodes come first. -/
theorem leading_replicate (size : Nat) : Leading (List.replicate size true) := by
  simp [Leading]

/-! ## Uniform policies -/

/-- A uniform policy for active nodes that come first follows the plan of an equal distribution of
the tasks of its granularity level. -/
theorem createUniformMask_eq {mask : List Bool} (leading : Leading mask)
    (nodes : 0 < mask.count true) (granularity : Nat) :
    ∃ mapping policy,
      getEqualDistribution mask (2 ^ max (height mask.length) granularity) = some mapping ∧
      Balanced (mask.count true) (2 ^ max (height mask.length) granularity) mapping ∧
      createUniformMask mask granularity = some policy ∧
      policy.granularity = max (height mask.length) granularity ∧
      policy.Follows (height mask.length)
        (planOf mapping (height mask.length) (max (height mask.length) granularity)) := by
  obtain ⟨mapping, given, balanced⟩ :=
    getEqualDistribution_balanced leading nodes (2 ^ max (height mask.length) granularity)
  obtain ⟨tree, built, follows⟩ := exists_follows balanced.length (Nat.le_max_left _ _)
  refine ⟨mapping, _, given, balanced, ?_, rfl, follows⟩
  rw [layer_getRootOfNetworkSize] at built
  unfold createUniformMask
  rw [if_neg (by omega), ceilLog2_eq]
  rw [Nat.shiftLeft_eq, Nat.one_mul] at built
  simp only [Nat.shiftLeft_eq, Nat.one_mul, given, built, Option.bind_eq_bind, Option.bind_some]

/-- A uniform policy follows the plan of an equal distribution of the tasks of its granularity
level. -/
theorem createUniform_eq (nodes : 0 < size) (granularity : Nat) :
    ∃ mapping policy, Balanced size (2 ^ max (height size) granularity) mapping ∧
      createUniform size granularity = some policy ∧
      policy.granularity = max (height size) granularity ∧
      policy.Follows (height size)
        (planOf mapping (height size) (max (height size) granularity)) := by
  obtain ⟨mapping, policy, -, balanced, made, level, follows⟩ := @createUniformMask_eq
    (List.replicate size true) (leading_replicate size) (by rwa [List.count_replicate_self])
    granularity
  rw [List.count_replicate_self] at balanced
  rw [List.length_replicate] at balanced level follows
  exact ⟨mapping, policy, balanced, made, level, follows⟩

/-- The mapping that is read back from a uniform policy is the one it was created for. -/
theorem createUniform_read (nodes : 0 < size) (granularity : Nat) :
    ∃ policy mapping, createUniform size granularity = some policy ∧
      ∃ fuel, policy.taskDistributionMapping fuel = some mapping := by
  obtain ⟨mapping, policy, balanced, made, level, follows⟩ := createUniform_eq nodes granularity
  exact ⟨policy, mapping, made, _, taskDistributionMapping_ascending follows level balanced.length
    balanced.ascending (ranks_lt_two_pow balanced.ranks) (Nat.lt_succ_self _)⟩

/-- The mapping that is read back from a uniform policy gives every node its share of the tasks of
the granularity level, in ascending order, and every task of the level is traced to a leaf of the
network. -/
theorem uniform_balanced {size : Nat} (nodes : 0 < size) (granularity : Nat) :
    ∃ policy mapping, createUniform size granularity = some policy ∧
      policy.granularity = max (ceilLog2 size) granularity ∧
      Balanced size (2 ^ max (ceilLog2 size) granularity) mapping ∧
      (∃ bound, ∀ fuel ≥ bound, policy.taskDistributionMapping fuel = some mapping) ∧
      ∀ path : TaskPath, path.getLength = max (ceilLog2 size) granularity →
        ∃ fuel rank, policy.traceTarget fuel path = some rank ∧ InNetwork size ⟨rank, 0⟩ := by
  obtain ⟨mapping, policy, balanced, made, level, follows⟩ := createUniform_eq nodes granularity
  have ranks := ranks_lt_two_pow balanced.ranks
  refine ⟨policy, mapping, made, level, balanced, ?_, fun path length => ?_⟩
  · refine ⟨max (height size) granularity + height size + 1, fun fuel enough => ?_⟩
    exact taskDistributionMapping_ascending follows level balanced.length balanced.ascending ranks
      enough
  · refine ⟨_, _, traceTarget_ascending follows balanced.ascending balanced.length ranks
      (Nat.le_of_eq length.symm), ?_⟩
    rw [inNetwork_iff]
    refine ⟨balanced.ranks _ (curMin_follow_mem balanced.length path), ?_, Nat.zero_le _⟩
    rw [Nat.pow_zero]
    exact one_dvd _

/-- Five nodes share eight tasks. -/
theorem uniform_balanced_five :
    ∃ policy mapping, createUniform 5 0 = some policy ∧
      policy.granularity = max (ceilLog2 5) 0 ∧
      Balanced 5 (2 ^ max (ceilLog2 5) 0) mapping ∧
      (∃ bound, ∀ fuel ≥ bound, policy.taskDistributionMapping fuel = some mapping) ∧
      ∀ path : TaskPath, path.getLength = max (ceilLog2 5) 0 →
        ∃ fuel rank, policy.traceTarget fuel path = some rank ∧ InNetwork 5 ⟨rank, 0⟩ :=
  uniform_balanced (by decide) 0

/-! ## Policies for a mask -/

/-- A fair distribution of tasks over the active nodes of a mask. -/
structure Fair (mask : List Bool) (tasks : Nat) (mapping : List Nat) : Prop where
  /-- Every task is given to a node. -/
  length : mapping.length = tasks
  /-- A node that is not active is given no task. -/
  inactive : ∀ node, mask.getD node false = false → mapping.count node = 0
  /-- Every active node is given its share, or one task more. -/
  shares : ∀ node, mask.getD node false = true →
    mapping.count node = tasks / mask.count true ∨ mapping.count node = tasks / mask.count true + 1

/-- `getEqualDistribution` where its check is compiled out: what is not written remains zero. -/
def getEqualDistributionUnchecked (mask : List Bool) (numTasks : Nat) : List Nat :=
  let numNodes := mask.count true
  let share := numTasks / numNodes
  let remainder := numTasks % numNodes
  let res := distribute mask share remainder (List.range numNodes) 0
  res ++ List.replicate (numTasks - res.length) 0

/-- Where the check holds, it makes no difference. -/
theorem getEqualDistributionUnchecked_eq {mask : List Bool} {tasks : Nat} {mapping : List Nat}
    (given : getEqualDistribution mask tasks = some mapping) :
    getEqualDistributionUnchecked mask tasks = mapping := by
  unfold getEqualDistribution at given
  simp only [Option.ite_none_right_eq_some, Option.some.injEq] at given
  obtain ⟨whole, rfl⟩ := given
  unfold getEqualDistributionUnchecked
  simp only [whole, Nat.sub_self, List.replicate_zero, List.append_nil]

/-- The loop gives tasks only to the nodes that it visits. -/
theorem mem_distribute {mask : List Bool} {share remainder l node : Nat} {nodes : List Nat}
    (found : node ∈ distribute mask share remainder nodes l) : node ∈ nodes := by
  induction nodes generalizing l with
  | nil => exact found
  | cons i nodes ih =>
    rw [distribute] at found
    split at found
    · exact List.mem_cons_of_mem i (ih found)
    · rcases List.mem_append.mp found with here | later
      · rw [(List.mem_replicate.mp here).2]
        exact List.mem_cons_self
      · split at later
        · rcases List.mem_cons.mp later with here | later
          · rw [here]
            exact List.mem_cons_self
          · exact List.mem_cons_of_mem i (ih later)
        · exact List.mem_cons_of_mem i (ih later)

/-- No task is given to a node from the number of active nodes on, the first one apart. -/
theorem count_getEqualDistributionUnchecked {mask : List Bool} {node : Nat} (tasks : Nat)
    (behind : mask.count true ≤ node) (positive : 0 < node) :
    (getEqualDistributionUnchecked mask tasks).count node = 0 := by
  apply List.count_eq_zero.mpr
  intro found
  unfold getEqualDistributionUnchecked at found
  rcases List.mem_append.mp found with written | kept
  · have visited := List.mem_range.mp (mem_distribute written)
    omega
  · have zero := (List.mem_replicate.mp kept).2
    omega

/-- With at least one task for every active node, a distribution is fair only if the active nodes
come first. -/
theorem leading_of_fair {mask : List Bool} {tasks : Nat} (nodes : 0 < mask.count true)
    (enough : mask.count true ≤ tasks)
    (fair : Fair mask tasks (getEqualDistributionUnchecked mask tasks)) : Leading mask := by
  apply leading_of_bounded
  intro node active
  by_contra behind
  have share : 0 < tasks / mask.count true := Nat.div_pos enough nodes
  have zero : (getEqualDistributionUnchecked mask tasks).count node = 0 :=
    count_getEqualDistributionUnchecked tasks (by omega) (by omega)
  rcases fair.shares node active with shared | shared <;> omega

/-- An equal distribution over the first nodes is fair when these are the active ones. -/
theorem Balanced.fair {mask : List Bool} {mapping : List Nat} {tasks : Nat}
    (leading : Leading mask) (balanced : Balanced (mask.count true) tasks mapping) :
    Fair mask tasks mapping where
  length := balanced.length
  inactive := by
    intro node inactive
    apply List.count_eq_zero.mpr
    intro found
    have active := (leading.active_iff node).mpr (balanced.ranks node found)
    rw [inactive] at active
    exact Bool.noConfusion active
  shares := fun node active => balanced.shares node ((leading.active_iff node).mp active)

/-- There is a task on the granularity level for every active node. -/
theorem count_le_tasks (mask : List Bool) (granularity : Nat) :
    mask.count true ≤ 2 ^ max (ceilLog2 mask.length) granularity := by
  have fits : mask.length ≤ 2 ^ max (ceilLog2 mask.length) granularity := by
    rw [ceilLog2_eq, ← height_le_iff]
    exact Nat.le_max_left _ _
  exact Nat.le_trans List.count_le_length fits

/-- The mapping that `getEqualDistribution` computes and a uniform policy encodes is a fair
distribution of the tasks of the granularity level exactly if the active nodes of the mask come
first; and without the check in `getEqualDistribution` the same masks have a fair distribution. -/
theorem uniform_fair_iff {mask : List Bool} (nodes : true ∈ mask) (granularity : Nat) :
    ((∃ mapping policy,
        getEqualDistribution mask (2 ^ max (ceilLog2 mask.length) granularity) = some mapping ∧
        Fair mask (2 ^ max (ceilLog2 mask.length) granularity) mapping ∧
        createUniformMask mask granularity = some policy ∧
        ∃ bound, ∀ fuel ≥ bound, policy.taskDistributionMapping fuel = some mapping) ↔
      Leading mask) ∧
    (Fair mask (2 ^ max (ceilLog2 mask.length) granularity)
        (getEqualDistributionUnchecked mask (2 ^ max (ceilLog2 mask.length) granularity)) ↔
      Leading mask) := by
  have active : 0 < mask.count true := List.count_pos_iff.mpr nodes
  have enough := count_le_tasks mask granularity
  constructor
  · constructor
    · rintro ⟨mapping, policy, given, fair, -⟩
      rw [← getEqualDistributionUnchecked_eq given] at fair
      exact leading_of_fair active enough fair
    · intro leading
      obtain ⟨mapping, policy, given, balanced, made, level, follows⟩ :=
        createUniformMask_eq leading active granularity
      have ranks : ∀ rank ∈ mapping, rank < mask.length := fun rank found =>
        Nat.lt_of_lt_of_le (balanced.ranks rank found) List.count_le_length
      refine ⟨mapping, policy, given, balanced.fair leading, made,
        max (height mask.length) granularity + height mask.length + 1, fun fuel long => ?_⟩
      exact taskDistributionMapping_ascending follows level balanced.length balanced.ascending
        (ranks_lt_two_pow ranks) long
  · constructor
    · exact leading_of_fair active enough
    · intro leading
      obtain ⟨mapping, given, balanced⟩ := getEqualDistribution_balanced leading active
        (2 ^ max (ceilLog2 mask.length) granularity)
      rw [getEqualDistributionUnchecked_eq given]
      exact balanced.fair leading

/-- Of three nodes the last one is not active. -/
theorem uniform_fair_three :
    ((∃ mapping policy,
        getEqualDistribution [true, true, false] (2 ^ max (ceilLog2 3) 2) = some mapping ∧
        Fair [true, true, false] (2 ^ max (ceilLog2 3) 2) mapping ∧
        createUniformMask [true, true, false] 2 = some policy ∧
        ∃ bound, ∀ fuel ≥ bound, policy.taskDistributionMapping fuel = some mapping) ↔
      Leading [true, true, false]) ∧
    (Fair [true, true, false] (2 ^ max (ceilLog2 3) 2)
        (getEqualDistributionUnchecked [true, true, false] (2 ^ max (ceilLog2 3) 2)) ↔
      Leading [true, true, false]) :=
  uniform_fair_iff (by decide) 2

/-- Of two nodes only the second one is active: no policy is created, and without the check of
`getEqualDistribution` all tasks are given to the first node. -/
theorem uniform_not_fair :
    (¬ ∃ mapping policy,
        getEqualDistribution [false, true] (2 ^ max (ceilLog2 2) 1) = some mapping ∧
        Fair [false, true] (2 ^ max (ceilLog2 2) 1) mapping ∧
        createUniformMask [false, true] 1 = some policy ∧
        ∃ bound, ∀ fuel ≥ bound, policy.taskDistributionMapping fuel = some mapping) ∧
      getEqualDistributionUnchecked [false, true] (2 ^ max (ceilLog2 2) 1) = [0, 0] ∧
      ¬ Fair [false, true] (2 ^ max (ceilLog2 2) 1)
        (getEqualDistributionUnchecked [false, true] (2 ^ max (ceilLog2 2) 1)) := by
  have all : getEqualDistributionUnchecked [false, true] (2 ^ max (ceilLog2 2) 1) = [0, 0] := by
    decide
  refine ⟨?_, all, fun fair => ?_⟩
  · rintro ⟨mapping, policy, given, -⟩
    have checked : getEqualDistribution [false, true] (2 ^ max (ceilLog2 2) 1) = none := by decide
    rw [checked] at given
    cases given
  · rw [all] at fair
    exact absurd (fair.inactive 0 rfl) (by decide)

end TreeSchedulingPolicy

end AllScale
