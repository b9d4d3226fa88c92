import Mathlib.Tactic.Linarith
import AllScale.SchedulePolicy.Migration
import AllScale.SchedulePolicy.ReadBack
import AllScale.SchedulePolicy.Uniform

/-!
# Nodes that rebalancing gives tasks to

`create_rebalanced` from task times takes nothing but its size from the mask of available nodes. The
nodes that its policy sends tasks to are those of the old policy, so it respects the mask exactly if
the old policy did.
-/

namespace AllScale

open TokenTree HierarchyAddress

namespace TreeSchedulingPolicy

variable {mapping before : List Nat} {size : Nat} {policy old : TreeSchedulingPolicy}

/-- A policy of a mapping onto the nodes of a network, as all functions that make tree policies make
them. -/
structure Made (size : Nat) (mapping : List Nat) (policy : TreeSchedulingPolicy) : Prop where
  /-- The policy is one for the whole network. -/
  root : policy.root = getRootOfNetworkSize size
  /-- There are enough tasks for all nodes. -/
  enough : height size ≤ policy.granularity
  /-- The mapping has a rank for every task. -/
  tasks : mapping.length = 2 ^ policy.granularity
  /-- The ranks are ranks of nodes. -/
  ranks : ∀ rank ∈ mapping, rank < size
  /-- The tree encodes the mapping. -/
  encodes : toDecisionTree (1 <<< policy.root.layer) mapping = some policy.tree

/-- A policy of a mapping follows its plan. -/
theorem Made.follows (made : policy.Made size mapping) :
    policy.Follows (height size) (planOf mapping (height size) policy.granularity) := by
  obtain ⟨tree, built, follows⟩ := exists_follows made.tasks made.enough
  have encodes := made.encodes
  rw [made.root, built] at encodes
  obtain rfl := Option.some.inj encodes
  rwa [← made.root] at follows

/-- From every mapping onto nodes with a rank for every task a policy is made for an old one. -/
theorem Made.exists_next (made : old.Made size mapping) {after : List Nat}
    (tasks : after.length = 2 ^ old.granularity) (ranks : ∀ rank ∈ after, rank < size) :
    ∃ tree, toDecisionTree (1 <<< old.root.layer) after = some tree ∧
      Made size after ⟨old.root, old.granularity, tree⟩ := by
  obtain ⟨tree, built, -⟩ := exists_follows tasks made.enough
  rw [← made.root] at built
  exact ⟨tree, built, made.root, made.enough, tasks, ranks, built⟩

/-- Uniform policies are policies of mappings. -/
theorem made_createUniformMask {mask : List Bool} {granularity : Nat}
    (created : createUniformMask mask granularity = some policy) :
    ∃ mapping, policy.Made mask.length mapping := by
  unfold createUniformMask at created
  split at created
  · cases created
  · simp only [Option.bind_eq_bind, Option.bind_eq_some_iff, Option.some.injEq] at created
    obtain ⟨mapping, given, tree, built, rfl⟩ := created
    unfold getEqualDistribution at given
    simp only [Option.ite_none_right_eq_some, Option.some.injEq, Nat.shiftLeft_eq,
      Nat.one_mul] at given
    obtain ⟨whole, rfl⟩ := given
    refine ⟨_, rfl, ?_, whole, fun rank found => ?_, ?_⟩
    · rw [← ceilLog2_eq]
      exact Nat.le_max_left _ _
    · have visited := List.mem_range.mp (mem_distribute found)
      exact Nat.lt_of_lt_of_le visited List.count_le_length
    · rw [layer_getRootOfNetworkSize, ← ceilLog2_eq]
      simpa only [Nat.shiftLeft_eq, Nat.one_mul] using built

/-- Policies that are made from mappings onto nodes are policies of mappings. -/
theorem made_fromMapping (made : old.Made size mapping) {after : List Nat}
    (tasks : after.length = 2 ^ old.granularity) (ranks : ∀ rank ∈ after, rank < size) :
    ∃ policy, old.fromMapping after = some policy ∧ policy.Made size after := by
  obtain ⟨tree, built, next⟩ := made.exists_next tasks ranks
  refine ⟨_, ?_, next⟩
  unfold fromMapping
  simp only [built, Option.bind_eq_bind, Option.bind_some]

/-- When a function returns what another one does, it does so for lists. -/
theorem mapM_mono {α β : Type} {f f' : α → Option β} {l : List α} {values : List β}
    (returns : ∀ a value, f a = some value → f' a = some value)
    (returned : l.mapM f = some values) : l.mapM f' = some values := by
  induction l generalizing values with
  | nil => exact returned
  | cons a l ih =>
    simp only [List.mapM_cons, Option.bind_eq_bind, Option.bind_eq_some_iff] at returned ⊢
    obtain ⟨value, found, rest, later, made⟩ := returned
    exact ⟨value, returns a value found, rest, ih later, made⟩

/-- A mapping that has been read back is read back with more fuel. -/
theorem taskDistributionMapping_mono {fuel more : Nat}
    (read : policy.taskDistributionMapping fuel = some mapping) (enough : fuel ≤ more) :
    policy.taskDistributionMapping more = some mapping :=
  mapM_mono (fun _ _ traced => traceTarget_mono traced enough) read

/-- From every policy of a mapping onto nodes a mapping onto nodes is read back. -/
theorem Made.exists_read (made : policy.Made size mapping) (nodes : 0 < size) :
    ∃ before, (∀ fuel > policy.granularity + height size,
        policy.taskDistributionMapping fuel = some before) ∧ ∀ rank ∈ before, rank < size := by
  have read := taskDistributionMapping_eq made.follows rfl (Nat.le_refl _)
  refine ⟨_, fun fuel enough => taskDistributionMapping_mono read enough, fun rank found => ?_⟩
  obtain ⟨path, member, rfl⟩ := List.mem_map.mp found
  rw [traceTarget_of_read read rfl member, Option.getD_some]
  exact traceTarget_lt nodes made.tasks made.ranks made.follows
    (traceTarget_of_read read rfl member)

section Rebalance

variable {F : Type} [NatCast F] [Add F] [Sub F] [Mul F] [Div F] [OfScientific F] [LT F]
  [DecidableLT F]

omit [NatCast F] [Sub F] [Mul F] [Div F] [OfScientific F] [LT F] [DecidableLT F] in
/-- On a single node the loop over the mapping adds up the costs of all tasks. -/
theorem contribute_single {mapping : List Nat} {taskCosts : List F} (sum : F) (count : Nat)
    (tasks : taskCosts.length = mapping.length) (ranks : ∀ rank ∈ mapping, rank < 1) :
    contribute mapping taskCosts [sum] [count] =
      some ([taskCosts.foldl (· + ·) sum], [count + mapping.length]) := by
  induction mapping generalizing taskCosts sum count with
  | nil =>
    obtain rfl := List.length_eq_zero_iff.mp tasks
    rfl
  | cons rank mapping ih =>
    obtain ⟨cost, taskCosts, rfl⟩ := List.exists_cons_of_length_eq_add_one tasks
    obtain ⟨first, rest⟩ := List.forall_mem_cons.mp ranks
    obtain rfl : rank = 0 := by omega
    rw [contribute, if_pos (by simp)]
    show contribute mapping taskCosts [sum + cost] [count + 1] = _
    rw [ih (sum + cost) (count + 1) (Nat.succ.inj tasks) rest, List.length_cons, Nat.add_assoc,
      Nat.add_comm 1]
    rfl

/-- A margin is not negative. -/
def MarginNotNegative (sqrt : F → F) : Prop :=
  ∀ avg var : F, ¬ avg + 1.96 * sqrt var < avg ∧ ¬ avg < avg - 1.96 * sqrt var

/-- On a single node, whose average is that of all tasks, no task is moved. -/
theorem redistribute_single {sqrt : F → F} (margins : MarginNotNegative sqrt)
    (getTime : TaskPath → F) {granularity : Nat} {mask : List Bool} (single : mask.length = 1)
    (tasks : before.length = 2 ^ granularity) (ranks : ∀ rank ∈ before, rank < 1) :
    ∃ measured, measure sqrt granularity getTime mask before = some measured ∧
      measured.redistribute before = some before := by
  unfold measure
  simp only [Option.bind_eq_bind, single]
  have sampled : (sampleTaskCosts getTime granularity .root
      (List.replicate (1 <<< granularity) ((0 : Nat) : F))).length = before.length := by
    rw [length_sampleTaskCosts, List.length_replicate, Nat.shiftLeft_eq, Nat.one_mul, tasks]
  generalize sampleTaskCosts getTime granularity .root
    (List.replicate (1 <<< granularity) ((0 : Nat) : F)) = taskCosts at sampled ⊢
  have summed := contribute_single ((0 : Nat) : F) 0 sampled ranks
  rw [Nat.zero_add] at summed
  rw [List.replicate_one, List.replicate_one, summed]
  refine ⟨_, rfl, ?_⟩
  have unmoved (avg var : F) : adjust [avg] (1.96 * sqrt var) (avg - 1.96 * sqrt var)
      (avg + 1.96 * sqrt var) ⟨[before.length], false⟩ 0 = some ⟨[before.length], false⟩ := by
    obtain ⟨upper, lower⟩ := margins avg var
    unfold adjust
    simp only [List.getElem?_cons_zero, Option.bind_eq_bind, Option.bind_some]
    rw [if_neg upper, if_neg lower]
  unfold Measured.redistribute Measured.contribution Measured.rounds
  rw [← sampled] at unmoved ⊢
  simp only [List.zipWith_cons_cons, List.zipWith_nil_right, List.length_singleton, List.range_one,
    List.foldlM_cons, List.foldlM_nil]
  split
  · rfl
  · rw [unmoved]
    rfl

/-- From every policy of a mapping onto the nodes of a network, `create_rebalanced` makes a policy
that sends tasks to the same nodes. -/
theorem createRebalanced_nodes (undefined : UndefinedAverage F) {sqrt : F → F}
    (margins : MarginNotNegative sqrt) (getTime : TaskPath → F) {mask : List Bool}
    (nodes : 0 < mask.length) (made : old.Made mask.length mapping)
    (fits : 2 ^ old.granularity < 2 ^ 64) {fuel : Nat}
    (read : old.taskDistributionMapping fuel = some before)
    (ranks : ∀ rank ∈ before, rank < mask.length) :
    ∃ policy after, createRebalanced sqrt old getTime mask fuel = some policy ∧
      (∀ more > old.granularity + height mask.length,
        policy.taskDistributionMapping more = some after) ∧
      ∀ node, node ∈ after ↔ node ∈ before := by
  have tasks := length_taskDistributionMapping read
  obtain ⟨measured, after, returned, computed, length, same, order⟩ : ∃ measured after,
      measure sqrt old.granularity getTime mask before = some measured ∧
      measured.redistribute before = some after ∧ after.length = 2 ^ old.granularity ∧
      (∀ node, node ∈ after ↔ node ∈ before) ∧ (after = before ∨ after.Pairwise (· ≤ ·)) := by
    by_cases several : 2 ≤ mask.length
    · obtain ⟨measured, after, returned, rebalanced⟩ :=
        exists_rebalanced undefined sqrt getTime several tasks ranks fits
      exact ⟨measured, after, returned, rebalanced.computed, rebalanced.length, rebalanced.nodes,
        rebalanced.order⟩
    · have single : mask.length = 1 := by omega
      obtain ⟨measured, returned, computed⟩ :=
        redistribute_single margins getTime single tasks (by rwa [single] at ranks)
      exact ⟨measured, before, returned, computed, tasks, fun _ => Iff.rfl, Or.inl rfl⟩
  have ranksAfter : ∀ rank ∈ after, rank < mask.length := fun rank found =>
    ranks rank ((same rank).mp found)
  obtain ⟨tree, built, next⟩ := made.exists_next length ranksAfter
  refine ⟨⟨old.root, old.granularity, tree⟩, after, ?_, fun more enough => ?_, same⟩
  · rw [createRebalanced_eq, read, Option.bind_some, returned, Option.bind_some, computed,
      Option.bind_some, built, Option.map_some]
  · rcases order with kept | ascending
    · subst kept
      exact read_again made.follows rfl read next.follows rfl enough
    · exact taskDistributionMapping_ascending next.follows rfl length ascending
        (ranks_lt_two_pow ranksAfter) enough

/-- The policy that `create_rebalanced` makes from task times sends no task to a node that the mask
marks as inactive exactly if the old policy sends none there. -/
theorem createRebalanced_available_iff (undefined : UndefinedAverage F) {sqrt : F → F}
    (margins : MarginNotNegative sqrt) (getTime : TaskPath → F) {mask : List Bool}
    (available : true ∈ mask) (made : old.Made mask.length mapping)
    (fits : 2 ^ old.granularity < 2 ^ 64) :
    ∃ before bound, (∀ fuel ≥ bound, old.taskDistributionMapping fuel = some before) ∧
      ∀ fuel ≥ bound,
        ((∃ policy after, createRebalanced sqrt old getTime mask fuel = some policy ∧
          (∃ bound, ∀ fuel ≥ bound, policy.taskDistributionMapping fuel = some after) ∧
          ∀ node ∈ after, mask[node]? = some true) ↔
        ∀ node ∈ before, mask[node]? = some true) := by
  have nodes : 0 < mask.length := List.length_pos_of_mem available
  obtain ⟨before, read, ranks⟩ := made.exists_read nodes
  refine ⟨before, _, fun fuel enough => read fuel enough, fun fuel enough => ?_⟩
  obtain ⟨policy, after, rebalanced, readAfter, same⟩ :=
    createRebalanced_nodes undefined margins getTime nodes made fits (read fuel enough) ranks
  constructor
  · rintro ⟨policy', after', rebalanced', ⟨bound, readAfter'⟩, respected⟩ node found
    rw [rebalanced] at rebalanced'
    obtain rfl := Option.some.inj rebalanced'
    have far : bound + (old.granularity + height mask.length + 1) > _ :=
      Nat.lt_of_lt_of_le (Nat.lt_succ_self _) (Nat.le_add_left _ _)
    have returned := readAfter' (bound + (old.granularity + height mask.length + 1))
      (Nat.le_add_right _ _)
    rw [readAfter _ far] at returned
    obtain rfl := Option.some.inj returned
    exact respected node ((same node).mpr found)
  · intro respected
    exact ⟨policy, after, rebalanced, ⟨_, fun more enough => readAfter more enough⟩,
      fun node found => respected node ((same node).mp found)⟩

end Rebalance

/-- The policy for two nodes with two tasks on each of them is one of a mapping. -/
theorem made_evenPolicy : evenPolicy.Made 2 [0, 0, 1, 1] :=
  ⟨rfl, by decide, rfl, by decide, by decide⟩

namespace MaybeRat

/-- A comparison that holds is one of two numbers. -/
theorem exists_of_lt {a b : MaybeRat} (less : a < b) :
    ∃ x y, a.value = some x ∧ b.value = some y ∧ x < y := by
  have holds : a.less b = true := less
  unfold MaybeRat.less at holds
  cases left : a.value with
  | none => simp [left] at holds
  | some x =>
    cases right : b.value with
    | none => simp [left, right] at holds
    | some y => exact ⟨x, y, rfl, rfl, by simpa [left, right] using holds⟩

/-- The result of an operation is that of two numbers. -/
theorem exists_of_lift {op : ℚ → ℚ → ℚ} {a b : MaybeRat} {z : ℚ}
    (result : (lift op a b).value = some z) :
    ∃ x y, a.value = some x ∧ b.value = some y ∧ op x y = z := by
  simpa [lift, Option.bind_eq_some_iff] using result

/-- A margin that is a number is not negative. -/
theorem margin_nonneg {var : MaybeRat} {z : ℚ}
    (margin : ((1.96 : MaybeRat) * var.sqrt).value = some z) : 0 ≤ z := by
  obtain ⟨factor, root, known, sampled, rfl⟩ := exists_of_lift margin
  obtain rfl : (1.96 : ℚ) = factor := Option.some.inj known
  have positive : 0 ≤ root := by
    obtain ⟨x, -, rooted⟩ := Option.bind_eq_some_iff.mp sampled
    split at rooted
    · cases rooted
    · rw [← Option.some.inj rooted]
      exact Rat.sqrt_nonneg x
  exact mul_nonneg (by norm_num) positive

end MaybeRat

/-- The square root of the arithmetic with an undefined quotient makes no negative margin. -/
theorem marginNotNegative_sqrt : MarginNotNegative MaybeRat.sqrt := by
  intro avg var
  refine ⟨fun above => ?_, fun below => ?_⟩
  · obtain ⟨upper, average, summed, same, less⟩ := MaybeRat.exists_of_lt above
    obtain ⟨x, margin, same', known, rfl⟩ := MaybeRat.exists_of_lift summed
    obtain rfl := Option.some.inj (same.symm.trans same')
    have nonneg := MaybeRat.margin_nonneg known
    linarith
  · obtain ⟨average, lower, same, summed, less⟩ := MaybeRat.exists_of_lt below
    obtain ⟨x, margin, same', known, rfl⟩ := MaybeRat.exists_of_lift summed
    obtain rfl := Option.some.inj (same.symm.trans same')
    have nonneg := MaybeRat.margin_nonneg known
    linarith

/-- Two nodes, of which both are available. -/
theorem createRebalanced_available_two :
    ∃ before bound, (∀ fuel ≥ bound, evenPolicy.taskDistributionMapping fuel = some before) ∧
      ∀ fuel ≥ bound,
        ((∃ policy after,
          createRebalanced MaybeRat.sqrt evenPolicy unevenTime [true, true] fuel = some policy ∧
          (∃ bound, ∀ fuel ≥ bound, policy.taskDistributionMapping fuel = some after) ∧
          ∀ node ∈ after, [true, true][node]? = some true) ↔
        ∀ node ∈ before, [true, true][node]? = some true) :=
  createRebalanced_available_iff undefinedAverage_maybeRat marginNotNegative_sqrt unevenTime
    (by decide) made_evenPolicy (by decide)

/-- The second of two nodes has been deactivated, and is still sent tasks by the policy that is made
from the old one. -/
theorem createRebalanced_not_available :
    ¬ ∃ policy after,
        createRebalanced MaybeRat.sqrt evenPolicy unevenTime [true, false] 4 = some policy ∧
        (∃ bound, ∀ fuel ≥ bound, policy.taskDistributionMapping fuel = some after) ∧
        ∀ node ∈ after, [true, false][node]? = some true := by
  rintro ⟨policy, after, rebalanced, ⟨bound, read⟩, respected⟩
  have sent : (createRebalanced MaybeRat.sqrt evenPolicy unevenTime [true, false] 4).bind
      (fun policy => policy.taskDistributionMapping 4) = some [0, 1, 1, 1] := by
    decide +kernel
  rw [rebalanced, Option.bind_some] at sent
  have same := taskDistributionMapping_mono sent (Nat.le_add_left 4 bound)
  rw [read (bound + 4) (Nat.le_add_right _ _)] at same
  obtain rfl := Option.some.inj same
  exact absurd (respected 1 (by decide)) (by decide)

end TreeSchedulingPolicy

end AllScale
