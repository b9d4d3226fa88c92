import Mathlib.Algebra.Order.Group.Defs
import Mathlib.Data.Rat.Defs
import Mathlib.Algebra.Order.Ring.Rat
import AllScale.Lib.OrderedMap

/-!
# Greedy partitions

The last part of `decide_schedule` gives every task to the node with the least load. The nodes are
kept in a list whose first element is the one that was changed last: before the next task it is put
back in its place by hand. In exact arithmetic the rest of the list stays sorted, so the first
element always has the least load then.
-/

namespace AllScale

/-- `node_load_t`. -/
structure NodeLoad (F : Type) where
  /-- `node`. -/
  node : Nat
  /-- `load`. -/
  load : F
  deriving DecidableEq

variable {F W : Type}

namespace NodeLoad

section Loop

variable [LT F] [DecidableLT F]

/-- The search for the place of the node that was the first one, before the first node with a
greater load. -/
def reinsert (previousLowest : NodeLoad F) : List (NodeLoad F) → List (NodeLoad F)
  | [] => [previousLowest]
  | it :: rest =>
    if it.load > previousLowest.load then previousLowest :: it :: rest
    else it :: reinsert previousLowest rest

/-- The first node is put back when its load has become greater than that of the second one. -/
def settle : List (NodeLoad F) → List (NodeLoad F)
  | first :: second :: rest =>
    if first.load > second.load then reinsert first (second :: rest) else first :: second :: rest
  | expectedNodeLoad => expectedNodeLoad

/-- Putting a node back keeps all nodes. -/
theorem reinsert_perm (x : NodeLoad F) (loads : List (NodeLoad F)) :
    (reinsert x loads).Perm (x :: loads) := by
  induction loads with
  | nil => exact .refl _
  | cons it rest ih =>
    rw [reinsert]
    split
    · exact .refl _
    · exact (ih.cons it).trans (.swap x it rest)

/-- The nodes stay the same. -/
theorem settle_perm (loads : List (NodeLoad F)) : (settle loads).Perm loads := by
  match loads with
  | [] => exact .refl _
  | [_] => exact .refl _
  | first :: second :: rest =>
    rw [settle]
    split
    · exact reinsert_perm first _
    · exact .refl _

variable [Add F]

/-- The body of the loop over the tasks with their costs: the first node is given the task. -/
def assign (state : List (NodeLoad F) × OrderedMap Nat (List W)) (costWi : F × W) :
    List (NodeLoad F) × OrderedMap Nat (List W) :=
  match settle state.1 with
  | first :: rest =>
    ({ first with load := first.load + costWi.1 } :: rest,
      state.2.update first.node [] (· ++ [costWi.2]))
  | [] => state

/-- The partition of the tasks: the loop for several nodes, and the case of a single one. -/
def partitionTasks (expectedNodeLoad : List (NodeLoad F)) (allTasks : List (F × W))
    (newSchedule : OrderedMap Nat (List W)) : OrderedMap Nat (List W) :=
  if expectedNodeLoad.length > 1 then (allTasks.foldl assign (expectedNodeLoad, newSchedule)).2
  else
    match expectedNodeLoad with
    | [targetNode] => allTasks.foldl (fun newSchedule costWi =>
        newSchedule.update targetNode.node [] (· ++ [costWi.2])) newSchedule
    | _ => newSchedule

/-! ## Nothing is lost -/

/-- A task is given to one of the nodes, whose load grows by its cost. -/
theorem assign_cases {state : List (NodeLoad F) × OrderedMap Nat (List W)} (nonempty : state.1 ≠ [])
    (costWi : F × W) :
    ∃ target others, settle state.1 = target :: others ∧ state.1.Perm (target :: others) ∧
      assign state costWi = ({ target with load := target.load + costWi.1 } :: others,
        state.2.update target.node [] (· ++ [costWi.2])) := by
  have perm := settle_perm state.1
  unfold assign
  cases settled : settle state.1 with
  | nil =>
    rw [settled] at perm
    exact absurd perm.nil_eq.symm nonempty
  | cons target others =>
    rw [settled] at perm
    exact ⟨target, others, rfl, perm.symm, rfl⟩

/-- The loop places every task once, on one of the nodes. -/
theorem foldl_assign {state : List (NodeLoad F) × OrderedMap Nat (List W)} (nonempty : state.1 ≠ [])
    (tasks : List (F × W)) :
    (tasks.foldl assign state).2.items.Perm (tasks.map Prod.snd ++ state.2.items) ∧
      ∀ node ∈ (tasks.foldl assign state).2.keys,
        node ∈ state.2.keys ∨ node ∈ state.1.map NodeLoad.node := by
  induction tasks generalizing state with
  | nil => exact ⟨.refl _, fun node found => .inl found⟩
  | cons costWi tasks ih =>
    obtain ⟨target, others, -, perm, next⟩ := assign_cases nonempty costWi
    rw [List.foldl_cons, next]
    obtain ⟨placed, keys⟩ := @ih ({ target with load := target.load + costWi.1 } :: others,
      state.2.update target.node [] (· ++ [costWi.2])) (List.cons_ne_nil _ _)
    have same (node : Nat) : node ∈ state.1.map NodeLoad.node ↔
        node = target.node ∨ node ∈ others.map NodeLoad.node := by
      rw [(perm.map NodeLoad.node).mem_iff, List.map_cons, List.mem_cons]
    refine ⟨placed.trans ?_, fun node found => ?_⟩
    · rw [List.map_cons, List.cons_append]
      exact ((state.2.items_push target.node costWi.2).append_left _).trans List.perm_middle
    · rw [same]
      rcases keys node found with before | there
      · rcases OrderedMap.mem_keys_update.mp before with rfl | before
        · exact .inr (.inl rfl)
        · exact .inl before
      · exact .inr (List.mem_cons.mp there)

/-- The partition places every task once, on one of the nodes, if there is a node. -/
theorem partitionTasks_spec {loads : List (NodeLoad F)} {tasks : List (F × W)}
    (nonempty : tasks ≠ [] → loads ≠ []) (schedule : OrderedMap Nat (List W)) :
    (partitionTasks loads tasks schedule).items.Perm (tasks.map Prod.snd ++ schedule.items) ∧
      ∀ node ∈ (partitionTasks loads tasks schedule).keys,
        node ∈ schedule.keys ∨ node ∈ loads.map NodeLoad.node := by
  unfold partitionTasks
  split
  · rename_i several
    have nodes : loads ≠ [] := by
      rintro rfl
      exact Nat.not_lt_zero _ several
    exact foldl_assign nodes tasks
  · rename_i few
    match loads with
    | [] =>
      have empty : tasks = [] := by
        by_contra more
        exact nonempty more rfl
      rw [empty]
      exact ⟨.refl _, fun node found => .inl found⟩
    | [target] =>
      clear few nonempty
      induction tasks generalizing schedule with
      | nil => exact ⟨.refl _, fun node found => .inl found⟩
      | cons costWi tasks ih =>
        obtain ⟨placed, keys⟩ := ih (schedule.update target.node [] (· ++ [costWi.2]))
        refine ⟨placed.trans ?_, fun node found => ?_⟩
        · rw [List.map_cons, List.cons_append]
          exact ((schedule.items_push target.node costWi.2).append_left _).trans List.perm_middle
        · rcases keys node found with before | there
          · rcases OrderedMap.mem_keys_update.mp before with rfl | before
            · exact .inr List.mem_cons_self
            · exact .inl before
          · exact .inr there
    | first :: second :: rest => simp at few

end Loop

/-! ## Balance -/

section Balance

variable [AddCommGroup F] [LinearOrder F]

/-- The nodes behind the first one are sorted by their loads. -/
def TailSorted (loads : List (NodeLoad F)) : Prop := loads.tail.Pairwise (·.load ≤ ·.load)

omit [AddCommGroup F] in
/-- A node is put back into its place. -/
theorem sorted_reinsert (x : NodeLoad F) {loads : List (NodeLoad F)}
    (sorted : loads.Pairwise (·.load ≤ ·.load)) :
    (reinsert x loads).Pairwise (·.load ≤ ·.load) := by
  induction loads with
  | nil => exact List.pairwise_singleton _ _
  | cons it rest ih =>
    obtain ⟨first, sorted⟩ := List.pairwise_cons.mp sorted
    rw [reinsert]
    split
    · rename_i greater
      refine List.pairwise_cons.mpr ⟨fun y found => ?_, List.pairwise_cons.mpr ⟨first, sorted⟩⟩
      rcases List.mem_cons.mp found with rfl | found
      · exact le_of_lt greater
      · exact (le_of_lt greater).trans (first y found)
    · rename_i notGreater
      refine List.pairwise_cons.mpr ⟨fun y found => ?_, ih sorted⟩
      rcases List.mem_cons.mp ((reinsert_perm x rest).mem_iff.mp found) with rfl | found
      · exact not_lt.mp notGreater
      · exact first y found

omit [AddCommGroup F] in
/-- After the first node has been put back all nodes are sorted. -/
theorem sorted_settle {loads : List (NodeLoad F)} (sorted : TailSorted loads) :
    (settle loads).Pairwise (·.load ≤ ·.load) := by
  match loads with
  | [] => exact .nil
  | [x] => exact List.pairwise_singleton _ x
  | first :: second :: rest =>
    have behind := (List.pairwise_cons.mp sorted).1
    rw [settle]
    split
    · exact sorted_reinsert first sorted
    · rename_i notGreater
      refine List.pairwise_cons.mpr ⟨fun y found => ?_, sorted⟩
      rcases List.mem_cons.mp found with rfl | found
      · exact not_lt.mp notGreater
      · exact (not_lt.mp notGreater).trans (behind y found)

/-- A step of the loop keeps the tail sorted and gives the task to a node with minimal load. -/
theorem assign_minimal {state : List (NodeLoad F) × OrderedMap Nat (List W)}
    (nonempty : state.1 ≠ []) (sorted : TailSorted state.1) (costWi : F × W) :
    ∃ target others, state.1.Perm (target :: others) ∧
      (∀ node ∈ state.1, target.load ≤ node.load) ∧
      TailSorted (assign state costWi).1 ∧
      (assign state costWi).1.Perm
        ({ target with load := target.load + costWi.1 } :: others) ∧
      (assign state costWi).2 = state.2.update target.node [] (· ++ [costWi.2]) := by
  obtain ⟨target, others, settled, perm, next⟩ := assign_cases nonempty costWi
  have all := sorted_settle sorted
  rw [settled] at all
  obtain ⟨least, rest⟩ := List.pairwise_cons.mp all
  refine ⟨target, others, perm, fun node found => ?_, ?_, ?_, ?_⟩
  · rcases List.mem_cons.mp (perm.mem_iff.mp found) with rfl | found
    · exact le_refl _
    · exact least node found
  · rw [next]
    exact rest
  · rw [next]
  · rw [next]

/-- The greatest cost of a task. -/
def largest (tasks : List (F × W)) : F := (tasks.map Prod.fst).foldr max 0

/-- No cost exceeds the greatest one. -/
theorem le_largest {tasks : List (F × W)} {task : F × W} (found : task ∈ tasks) :
    task.1 ≤ largest tasks := by
  induction tasks with
  | nil => exact absurd found List.not_mem_nil
  | cons first tasks ih =>
    rcases List.mem_cons.mp found with rfl | found
    · exact le_max_left _ _
    · exact (ih found).trans (le_max_right _ _)

/-- The greatest cost is not negative. -/
theorem largest_nonneg (tasks : List (F × W)) : 0 ≤ largest tasks := by
  induction tasks with
  | nil => exact le_refl _
  | cons first tasks ih => exact ih.trans (le_max_right _ _)

/-- The loop keeps the tail sorted. -/
theorem foldl_assign_sorted {state : List (NodeLoad F) × OrderedMap Nat (List W)}
    (nonempty : state.1 ≠ []) (sorted : TailSorted state.1) (tasks : List (F × W)) :
    (tasks.foldl assign state).1 ≠ [] ∧ TailSorted (tasks.foldl assign state).1 := by
  induction tasks generalizing state with
  | nil => exact ⟨nonempty, sorted⟩
  | cons task tasks ih =>
    obtain ⟨target, others, -, -, sorted', next, -⟩ := assign_minimal nonempty sorted task
    refine ih (fun empty => ?_) sorted'
    rw [empty] at next
    exact absurd next.nil_eq (List.cons_ne_nil _ _).symm

variable [IsOrderedAddMonoid F]

/-- When loads differ by at most a bound that no cost exceeds, they still do after a step. -/
theorem assign_spread {state : List (NodeLoad F) × OrderedMap Nat (List W)}
    (nonempty : state.1 ≠ []) (sorted : TailSorted state.1) {costWi : F × W} {bound : F}
    (positive : 0 ≤ costWi.1)
    (bounded : costWi.1 ≤ bound)
    (spread : ∀ a ∈ state.1, ∀ b ∈ state.1, a.load ≤ b.load + bound) :
    ∀ a ∈ (assign state costWi).1, ∀ b ∈ (assign state costWi).1, a.load ≤ b.load + bound := by
  obtain ⟨target, others, perm, least, -, next, -⟩ := assign_minimal nonempty sorted costWi
  have here : target ∈ state.1 := perm.mem_iff.mpr List.mem_cons_self
  have there {node : NodeLoad F} (found : node ∈ others) : node ∈ state.1 :=
    perm.mem_iff.mpr (List.mem_cons_of_mem _ found)
  have nonneg : 0 ≤ bound := positive.trans bounded
  intro a left b right
  rcases List.mem_cons.mp (next.mem_iff.mp left) with rfl | left
  · rcases List.mem_cons.mp (next.mem_iff.mp right) with rfl | right
    · exact le_add_of_nonneg_right nonneg
    · exact add_le_add (least b (there right)) bounded
  · rcases List.mem_cons.mp (next.mem_iff.mp right) with rfl | right
    · have more : target.load + bound ≤ target.load + costWi.1 + bound := by
        rw [add_right_comm]
        exact le_add_of_nonneg_right positive
      exact (spread a (there left) target here).trans more
    · exact spread a (there left) b (there right)

/-- The loop keeps the loads within a bound that no cost exceeds. -/
theorem foldl_assign_spread {state : List (NodeLoad F) × OrderedMap Nat (List W)}
    (nonempty : state.1 ≠ []) (sorted : TailSorted state.1) {tasks : List (F × W)} {bound : F}
    (costs : ∀ task ∈ tasks, 0 ≤ task.1 ∧ task.1 ≤ bound)
    (spread : ∀ a ∈ state.1, ∀ b ∈ state.1, a.load ≤ b.load + bound) :
    ∀ a ∈ (tasks.foldl assign state).1, ∀ b ∈ (tasks.foldl assign state).1,
      a.load ≤ b.load + bound := by
  induction tasks generalizing state with
  | nil => exact spread
  | cons task tasks ih =>
    have first := costs task List.mem_cons_self
    obtain ⟨nonempty', sorted'⟩ := foldl_assign_sorted nonempty sorted [task]
    exact ih nonempty' sorted' (fun later found => costs later (List.mem_cons_of_mem _ found))
      (assign_spread nonempty sorted first.1 first.2 spread)

/-- The loop over tasks with costs that are not negative, for two or more nodes without load. After
every task the nodes behind the first one are sorted by load, every task goes to a node whose load
is minimal then, and in the end the loads of two nodes differ by at most the greatest cost. -/
theorem foldl_assign_balanced {loads : List (NodeLoad F)} (several : 2 ≤ loads.length)
    (empty : ∀ node ∈ loads, node.load = 0) {tasks : List (F × W)}
    (costs : ∀ task ∈ tasks, 0 ≤ task.1) (schedule : OrderedMap Nat (List W)) :
    (∀ before task after, tasks = before ++ task :: after →
      ∃ state next, state = before.foldl assign (loads, schedule) ∧
        next = (before ++ [task]).foldl assign (loads, schedule) ∧
        TailSorted state.1 ∧ TailSorted next.1 ∧
        ∃ target others, state.1.Perm (target :: others) ∧
          (∀ node ∈ state.1, target.load ≤ node.load) ∧
          next.1.Perm ({ target with load := target.load + task.1 } :: others) ∧
          next.2 = state.2.update target.node [] (· ++ [task.2])) ∧
    ∀ a ∈ (tasks.foldl assign (loads, schedule)).1, ∀ b ∈ (tasks.foldl assign (loads, schedule)).1,
      a.load - b.load ≤ largest tasks := by
  have nonempty : loads ≠ [] := by
    rintro rfl
    exact Nat.not_succ_le_zero _ several
  have same (a : NodeLoad F) (left : a ∈ loads) (b : NodeLoad F) (right : b ∈ loads) :
      a.load ≤ b.load := by
    rw [empty a left, empty b right]
  have sorted : TailSorted loads := List.pairwise_of_forall_mem_list fun a left b right =>
    same a (List.mem_of_mem_tail left) b (List.mem_of_mem_tail right)
  constructor
  · rintro before task after -
    obtain ⟨nonempty', sorted'⟩ :=
      @foldl_assign_sorted F W _ _ (loads, schedule) nonempty sorted before
    obtain ⟨target, others, perm, least, sorted'', next, given⟩ :=
      assign_minimal nonempty' sorted' task
    refine ⟨_, _, rfl, rfl, sorted', ?_⟩
    rw [List.foldl_append]
    exact ⟨sorted'', target, others, perm, least, next, given⟩
  · intro a left b right
    have spread := @foldl_assign_spread F W _ _ _ (loads, schedule) nonempty sorted tasks
      (largest tasks) (fun task found => ⟨costs task found, le_largest found⟩)
      (fun a left b right => (same a left b right).trans
        (le_add_of_nonneg_right (largest_nonneg tasks))) a left b right
    exact sub_le_iff_le_add'.mpr spread

end Balance

/-- Two nodes and three tasks. -/
theorem foldl_assign_balanced_three :
    ∃ state : List (NodeLoad ℚ) × OrderedMap Nat (List Char),
      state = [(3, 'a'), (1, 'b'), (1, 'c')].foldl assign ([⟨0, 0⟩, ⟨1, 0⟩], .empty) ∧
      ∀ a ∈ state.1, ∀ b ∈ state.1, a.load - b.load ≤ 3 :=
  ⟨_, rfl, (foldl_assign_balanced (by decide) (by decide) (by decide) .empty).2⟩

end NodeLoad

end AllScale
