import Mathlib.Algebra.BigOperators.Group.List.Basic
import Mathlib.Data.Rat.Sqrt
import AllScale.SchedulePolicy.Mapping
import AllScale.SchedulePolicy.Rebalance

/-!
# Tasks that are moved by rebalancing

`create_rebalanced` counts the tasks of every node and moves single tasks between neighbours. A move
takes a task from a node that keeps at least one, and gives it to a node that has at least one:
the average of a node without a task is undefined, and no comparison with it holds. So the counts
always add up to the number of tasks, and the nodes with tasks remain the same.
-/

namespace AllScale

open TokenTree HierarchyAddress

namespace TreeSchedulingPolicy

/-! ## Counts of tasks -/

/-- Changing an entry of a list changes the sum by the difference. -/
theorem sum_modify {counts : List Nat} {i : Nat} (inside : i < counts.length) (f : Nat → Nat) :
    (counts.modify i f).sum + counts.getD i 0 = counts.sum + f (counts.getD i 0) := by
  induction counts generalizing i with
  | nil => exact absurd inside (Nat.not_lt_zero i)
  | cons count counts ih =>
    cases i with
    | zero =>
      simp only [List.modify_zero_cons, List.sum_cons, List.getD_cons_zero]
      omega
    | succ i =>
      have rest := ih (Nat.lt_of_succ_lt_succ inside)
      simp only [List.modify_succ_cons, List.sum_cons, List.getD_cons_succ]
      omega

/-- The entries of a list after one of them has been changed. -/
theorem getD_modify {counts : List Nat} {i : Nat} (inside : i < counts.length) (f : Nat → Nat)
    (node : Nat) :
    (counts.modify i f).getD node 0 = if i = node then f (counts.getD i 0)
      else counts.getD node 0 := by
  rw [List.getD_eq_getElem?_getD, List.getElem?_modify]
  split
  · rename_i same
    subst same
    rw [List.getElem?_eq_getElem inside, List.getD_eq_getElem?_getD,
      List.getElem?_eq_getElem inside]
    rfl
  · rw [List.getD_eq_getElem?_getD]
    simp

/-- An entry that is not zero is an entry of the list. -/
theorem lt_length_of_getD {counts : List Nat} {i : Nat} (positive : 0 < counts.getD i 0) :
    i < counts.length := by
  by_contra outside
  rw [List.getD_eq_getElem?_getD, List.getElem?_eq_none (not_lt.mp outside)] at positive
  exact absurd positive (Nat.lt_irrefl 0)

/-- An entry is at most the sum of its list. -/
theorem getD_le_sum (counts : List Nat) (i : Nat) : counts.getD i 0 ≤ counts.sum := by
  by_cases inside : i < counts.length
  · have removed := sum_modify inside fun _ => 0
    omega
  · rw [List.getD_eq_getElem?_getD, List.getElem?_eq_none (not_lt.mp inside)]
    exact Nat.zero_le _

namespace Contribution

variable {self next : Contribution} {source target node size : Nat} {before : List Nat}

/-- The number of tasks of a node. -/
def tasks (self : Contribution) (node : Nat) : Nat := self.counts.getD node 0

/-- A task can be moved from a node that keeps at least one to another node with a task. -/
structure Movable (contribution : Contribution) (source target : Nat) : Prop where
  /-- The task goes to another node. -/
  apart : source ≠ target
  /-- The source keeps a task. -/
  two : 2 ≤ contribution.tasks source
  /-- The target has a task. -/
  one : 1 ≤ contribution.tasks target

/-- What a call of a helper may do: nothing, or a move that is possible. -/
def Migrates (self next : Contribution) : Prop :=
  next = self ∨ ∃ source target, self.Movable source target ∧ next = self.move source target

/-- The counts between two moves: they add up to the number of tasks, and the nodes with tasks are
those of the mapping. -/
structure Kept (before : List Nat) (size : Nat) (contribution : Contribution) : Prop where
  /-- There is a count for every node. -/
  length : contribution.counts.length = size
  /-- The counts add up to the number of tasks. -/
  sum : contribution.counts.sum = before.length
  /-- The nodes with tasks are those of the mapping. -/
  served : ∀ node, 0 < contribution.tasks node ↔ node ∈ before

/-- A counter that is not zero is decremented without an underflow. -/
theorem decremented {count : Nat} (positive : 1 ≤ count) (fits : count < 2 ^ 64) :
    (count + 2 ^ 64 - 1) % 2 ^ 64 = count - 1 := by
  omega

/-- A possible move changes the counts of its two nodes by one, without an overflow, and keeps the
sum. -/
theorem move_spec (movable : self.Movable source target) (fits : self.counts.sum < 2 ^ 64) :
    (self.move source target).counts.length = self.counts.length ∧
      (self.move source target).counts.sum = self.counts.sum ∧
      ∀ node, (self.move source target).tasks node =
        if node = source then self.tasks source - 1
        else if node = target then self.tasks target + 1 else self.tasks node := by
  have two := movable.two
  have one := movable.one
  have apart := movable.apart
  unfold tasks at two one ⊢
  have insideSource := lt_length_of_getD (by omega : 0 < self.counts.getD source 0)
  have insideTarget := lt_length_of_getD (by omega : 0 < self.counts.getD target 0)
  have below := getD_le_sum self.counts source
  have lower := decremented (by omega : 1 ≤ self.counts.getD source 0) (by omega)
  have taken := sum_modify insideSource fun count => (count + 2 ^ 64 - 1) % 2 ^ 64
  have kept := getD_modify insideSource (fun count => (count + 2 ^ 64 - 1) % 2 ^ 64)
  unfold move
  generalize removed : self.counts.modify source (fun count => (count + 2 ^ 64 - 1) % 2 ^ 64) =
    counts at taken kept ⊢
  have length : counts.length = self.counts.length := by rw [← removed, List.length_modify]
  rw [← length] at insideTarget
  rw [lower] at taken
  have same := kept target
  rw [if_neg apart] at same
  have room := getD_le_sum counts target
  have upper : (counts.getD target 0 + 1) % 2 ^ 64 = counts.getD target 0 + 1 := by
    apply Nat.mod_eq_of_lt
    omega
  have given := sum_modify insideTarget fun count => (count + 1) % 2 ^ 64
  rw [upper] at given
  have sum : (counts.modify target fun count => (count + 1) % 2 ^ 64).sum = self.counts.sum := by
    omega
  refine ⟨by rw [List.length_modify, length], sum, fun node => ?_⟩
  rw [getD_modify insideTarget, upper, kept node, same, lower]
  by_cases atSource : node = source
  · have elsewhere : ¬ target = node := by omega
    rw [if_neg elsewhere, if_pos atSource.symm, if_pos atSource]
  · have elsewhere : ¬ source = node := by omega
    rw [if_neg elsewhere, if_neg atSource]
    by_cases atTarget : node = target
    · rw [if_pos atTarget.symm, if_pos atTarget]
    · have elsewhere : ¬ target = node := by omega
      rw [if_neg elsewhere, if_neg atTarget]

/-- A call of a helper keeps the sum of the counts and the nodes with tasks. -/
theorem Kept.migrates (kept : self.Kept before size) (fits : before.length < 2 ^ 64)
    (migrates : self.Migrates next) : next.Kept before size := by
  rcases migrates with same | ⟨source, target, movable, moved⟩
  · rwa [same]
  · subst moved
    have two := movable.two
    have one := movable.one
    obtain ⟨length, sum, tasks⟩ := move_spec movable (by rwa [kept.sum])
    refine ⟨length.trans kept.length, sum.trans kept.sum, fun node => ?_⟩
    rw [← kept.served node, tasks]
    split
    · rename_i here
      subst here
      omega
    · split
      · rename_i here
        subst here
        omega
      · rfl

end Contribution

/-! ## The helpers -/

/-- There is an average for every node of the network. -/
theorem exists_average {F : Type} {nodeAvg : List F} {node size : Nat}
    (averages : nodeAvg.length = size) (inside : node < size) :
    ∃ average, nodeAvg[node]? = some average := by
  rw [← averages] at inside
  exact ⟨_, List.getElem?_eq_getElem inside⟩

/-- There is a count for every node of the network. -/
theorem exists_count {self : Contribution} {node size : Nat}
    (counts : self.counts.length = size) (inside : node < size) :
    self.counts[node]? = some (self.tasks node) := by
  rw [← counts] at inside
  unfold Contribution.tasks
  rw [List.getD_eq_getElem?_getD, List.getElem?_eq_getElem inside, Option.getD_some]

section Helpers

variable {F : Type} [LT F] [DecidableLT F] {nodeAvg : List F} {margin : F} {self : Contribution}
  {node target size : Nat}

/-- A node whose average holds in a comparison has a task. -/
def Compared (nodeAvg : List F) (self : Contribution) : Prop :=
  ∀ node avg, nodeAvg[node]? = some avg → ∀ x, avg < x ∨ x < avg → 0 < self.tasks node

/-- The branches of `eligable_max` for a target, at a node that does not have exactly one task. -/
theorem handOver [Sub F] (margin : F) (averages : nodeAvg.length = size)
    (compared : Compared nodeAvg self) (inside : node < size) (served : 0 < self.tasks node)
    (several : self.tasks node ≠ 1) (insideTarget : target < size) (apart : node ≠ target) :
    ∃ next, ((nodeAvg[target]?).bind fun there => (nodeAvg[node]?).bind fun here =>
        if there < here - margin then some (self.move node target) else some self) = some next ∧
      self.Migrates next := by
  obtain ⟨there, foundThere⟩ := exists_average averages insideTarget
  obtain ⟨here, foundHere⟩ := exists_average averages inside
  rw [foundThere, foundHere, Option.bind_some, Option.bind_some]
  by_cases less : there < here - margin
  · have one := compared target there foundThere _ (Or.inl less)
    exact ⟨_, if_pos less, Or.inr ⟨node, target, ⟨apart, by omega, one⟩, rfl⟩⟩
  · exact ⟨self, if_neg less, Or.inl rfl⟩

/-- The branches of `eligable_min` for a target. -/
theorem takeOver [Add F] (margin : F) (averages : nodeAvg.length = size)
    (counts : self.counts.length = size) (compared : Compared nodeAvg self)
    (inside : node < size) (served : 0 < self.tasks node) (insideTarget : target < size)
    (apart : target ≠ node) :
    ∃ next, ((self.counts[target]?).bind fun count => if count = 1 then some self else
        (nodeAvg[target]?).bind fun there => (nodeAvg[node]?).bind fun here =>
          if there > here + margin then some (self.move target node) else some self) =
        some next ∧ self.Migrates next := by
  obtain ⟨there, foundThere⟩ := exists_average averages insideTarget
  obtain ⟨here, foundHere⟩ := exists_average averages inside
  rw [foundThere, foundHere, exists_count counts insideTarget]
  simp only [Option.bind_some]
  by_cases single : self.tasks target = 1
  · exact ⟨self, if_pos single, Or.inl rfl⟩
  · rw [if_neg single]
    by_cases more : there > here + margin
    · have one := compared target there foundThere _ (Or.inr more)
      exact ⟨_, if_pos more, Or.inr ⟨target, node, ⟨apart, by omega, served⟩, rfl⟩⟩
    · exact ⟨self, if_neg more, Or.inl rfl⟩

omit [LT F] [DecidableLT F] in
/-- What moves a task or does nothing for every other node does so for the neighbour that is
chosen. -/
theorem atNeighbour {branch : Nat → Option Contribution} (averages : nodeAvg.length = size)
    (nodes : 2 ≤ size) (inside : node < size) (choose : F → F → Nat)
    (near : ∀ before behind, choose before behind = node - 1 ∨ choose before behind = node + 1)
    (migrates : ∀ target < size, target ≠ node →
      ∃ next, branch target = some next ∧ self.Migrates next) :
    ∃ next, (if node = 0 then branch (node + 1)
      else if node = nodeAvg.length - 1 then branch (node - 1)
      else (nodeAvg[node - 1]?).bind fun before => (nodeAvg[node + 1]?).bind fun behind =>
        branch (choose before behind)) = some next ∧ self.Migrates next := by
  by_cases first : node = 0
  · rw [if_pos first]
    exact migrates _ (by omega) (by omega)
  · rw [if_neg first]
    by_cases last : node = nodeAvg.length - 1
    · rw [if_pos last]
      exact migrates _ (by omega) (by omega)
    · obtain ⟨before, foundBefore⟩ := exists_average averages (by omega : node - 1 < size)
      obtain ⟨behind, foundBehind⟩ := exists_average averages (by omega : node + 1 < size)
      rw [if_neg last, foundBefore, foundBehind, Option.bind_some, Option.bind_some]
      have side := near before behind
      exact migrates _ (by omega) (by omega)

/-- `eligable_max` returns for every node with a task, and moves a task or does nothing. -/
theorem eligableMax_migrates [Sub F] (averages : nodeAvg.length = size)
    (counts : self.counts.length = size) (compared : Compared nodeAvg self) (nodes : 2 ≤ size)
    (inside : node < size) (served : 0 < self.tasks node) :
    ∃ next, eligableMax nodeAvg margin self node = some next ∧ self.Migrates next := by
  unfold eligableMax
  simp only [Option.bind_eq_bind, Option.pure_def, exists_count counts inside, Option.bind_some]
  by_cases single : self.tasks node = 1
  · exact ⟨self, if_pos single, Or.inl rfl⟩
  · rw [if_neg single]
    refine atNeighbour averages nodes inside
      (fun before behind => if before < behind then node - 1 else node + 1) (fun _ _ => ?_)
      fun target insideTarget apart =>
        handOver margin averages compared inside served single insideTarget apart.symm
    split
    · exact Or.inl rfl
    · exact Or.inr rfl

/-- `eligable_min` returns for every node with a task, and moves a task or does nothing. -/
theorem eligableMin_migrates [Add F] (averages : nodeAvg.length = size)
    (counts : self.counts.length = size) (compared : Compared nodeAvg self) (nodes : 2 ≤ size)
    (inside : node < size) (served : 0 < self.tasks node) :
    ∃ next, eligableMin nodeAvg margin self node = some next ∧ self.Migrates next := by
  unfold eligableMin
  simp only [Option.bind_eq_bind, Option.pure_def, Option.bind_some]
  refine atNeighbour averages nodes inside
    (fun before behind => if before < behind then node + 1 else node - 1) (fun _ _ => ?_)
    fun target insideTarget apart =>
      takeOver margin averages counts compared inside served insideTarget apart
  split
  · exact Or.inr rfl
  · exact Or.inl rfl

end Helpers

/-! ## The averages -/

/-- Sampling writes to the entries of a list. -/
theorem length_sampleTaskCosts {F : Type} (getTime : TaskPath → F) (levels : Nat) (cur : TaskPath)
    (res : List F) : (sampleTaskCosts getTime levels cur res).length = res.length := by
  induction levels generalizing cur res with
  | zero => exact List.length_set
  | succ levels ih => rw [sampleTaskCosts, ih, ih]

/-- What the loop over the mapping computes: the tasks of every node are counted, and the sum of a
node without a task is left as it is. -/
theorem contribute_spec {F : Type} [Add F] {mapping : List Nat} {taskCosts sums : List F}
    {counts : List Nat} {size : Nat} (tasks : taskCosts.length = mapping.length)
    (ranks : ∀ rank ∈ mapping, rank < size) (lengthSums : sums.length = size)
    (lengthCounts : counts.length = size) :
    ∃ sums' counts', contribute mapping taskCosts sums counts = some (sums', counts') ∧
      sums'.length = size ∧ counts'.length = size ∧
      counts'.sum = counts.sum + mapping.length ∧
      (∀ node, counts'.getD node 0 = counts.getD node 0 + mapping.count node) ∧
      ∀ node, node ∉ mapping → sums'[node]? = sums[node]? := by
  induction mapping generalizing taskCosts sums counts with
  | nil => exact ⟨sums, counts, rfl, lengthSums, lengthCounts, rfl, fun _ => rfl, fun _ _ => rfl⟩
  | cons rank mapping ih =>
    obtain ⟨cost, taskCosts, rfl⟩ := List.exists_cons_of_length_eq_add_one tasks
    obtain ⟨inside, rest⟩ := List.forall_mem_cons.mp ranks
    have insideCounts : rank < counts.length := by omega
    obtain ⟨sums', counts', returned, lengthSums', lengthCounts', sum, counted, kept⟩ :=
      @ih taskCosts (sums.modify rank (· + cost)) (counts.modify rank (· + 1))
        (Nat.succ.inj tasks) rest (by rwa [List.length_modify]) (by rwa [List.length_modify])
    have added := sum_modify insideCounts (· + 1)
    refine ⟨sums', counts', ?_, lengthSums', lengthCounts', ?_, fun node => ?_, fun node unused =>
      ?_⟩
    · rw [contribute, if_pos ⟨by omega, insideCounts⟩, returned]
    · rw [sum, List.length_cons]
      omega
    · rw [counted, getD_modify insideCounts, List.count_cons]
      by_cases here : rank = node
      · rw [if_pos here, if_pos (by simpa using here), here]
        omega
      · rw [if_neg here, if_neg (by simpa using here), Nat.add_zero]
    · have other : rank ≠ node := fun same => unused (by simp [same])
      rw [kept node fun found => unused (List.mem_cons_of_mem rank found),
        List.getElem?_modify_ne _ _ other]

/-! ## The loop over the nodes -/

section Rounds

variable {F : Type} [NatCast F] [Add F] [Sub F] [Mul F] [Div F] [OfScientific F] [LT F]
  [DecidableLT F]

/-- What `create_rebalanced` measures before it moves tasks. -/
structure Measured (F : Type) where
  /-- `node_avg`. -/
  nodeAvg : List F
  /-- `margin`. -/
  margin : F
  /-- `lower`. -/
  lower : F
  /-- `upper`. -/
  upper : F
  /-- `var < 0.01f`. -/
  steady : Bool
  /-- `node_contribution`, before a task is moved. -/
  counts : List Nat

/-- The first part of `create_rebalanced`, up to the averages of the nodes. -/
def measure (sqrt : F → F) (granularity : Nat) (getTime : TaskPath → F) (mask : List Bool)
    (mapping : List Nat) : Option (Measured F) := do
  let mappingSize := 1 <<< granularity
  let taskCosts := sampleTaskCosts getTime granularity .root
    (List.replicate mappingSize ((0 : Nat) : F))
  let size := (taskCosts.length : F)
  let total := taskCosts.foldl (· + ·) ((0 : Nat) : F)
  let avg := total / size
  let sumDist := taskCosts.foldl
    (fun sumDist cost =>
      let dist := cost - avg
      sumDist + dist * dist) ((0 : Nat) : F)
  let var := sumDist / size
  let margin := 1.96 * sqrt (var / size)
  let (sums, counts) ← contribute mapping taskCosts
    (List.replicate mask.length ((0 : Nat) : F)) (List.replicate mask.length 0)
  some ⟨List.zipWith (fun sum count => sum / ((count : Nat) : F)) sums counts, margin, avg - margin,
    avg + margin, Decidable.decide (var < 0.01), counts⟩

namespace Measured

variable (measured : Measured F)

/-- The contributions after a number of rounds of the loop over the averages. -/
def rounds (n : Nat) : Option Contribution :=
  (List.range n).foldlM (adjust measured.nodeAvg measured.margin measured.lower measured.upper)
    ⟨measured.counts, false⟩

/-- The contributions with which the new mapping is generated. -/
def contribution : Option Contribution :=
  if measured.steady then some ⟨measured.counts, false⟩ else measured.rounds measured.nodeAvg.length

/-- The last part of `create_rebalanced`: the new mapping. -/
def redistribute (mapping : List Nat) : Option (List Nat) := do
  let contribution ← measured.contribution
  if contribution.updateMapping then generateMapping mapping contribution.counts else some mapping

end Measured

/-- `create_rebalanced` reads the old mapping, measures, and encodes the new mapping. -/
theorem createRebalanced_eq (sqrt : F → F) (old : TreeSchedulingPolicy) (getTime : TaskPath → F)
    (mask : List Bool) (fuel : Nat) :
    createRebalanced sqrt old getTime mask fuel =
      (old.taskDistributionMapping fuel).bind fun mapping =>
        (measure sqrt old.granularity getTime mask mapping).bind fun measured =>
          (measured.redistribute mapping).bind fun mapping =>
            (toDecisionTree (1 <<< old.root.layer) mapping).map fun tree =>
              ⟨old.root, old.granularity, tree⟩ := by
  unfold createRebalanced measure
  cases old.taskDistributionMapping fuel with
  | none => rfl
  | some mapping =>
    simp only [Option.bind_eq_bind, Option.bind_some]
    generalize sampleTaskCosts getTime old.granularity .root
      (List.replicate (1 <<< old.granularity) ((0 : Nat) : F)) = taskCosts
    cases contribute mapping taskCosts (List.replicate mask.length ((0 : Nat) : F))
      (List.replicate mask.length 0) with
    | none => rfl
    | some summed =>
      obtain ⟨sums, counts⟩ := summed
      unfold Measured.redistribute Measured.contribution Measured.rounds
      simp only [Option.bind_some, decide_eq_true_eq, Option.map_eq_bind, Option.bind_eq_bind]
      generalize List.foldl _ ((0 : Nat) : F) taskCosts / (taskCosts.length : F) = var
      by_cases steady : var < 0.01
      · rw [if_pos steady, if_pos steady]
        rfl
      · rw [if_neg steady, if_neg steady]
        rw [Option.bind_assoc]
        congr 1
        funext contribution
        split <;> rfl

/-- The counts add up to the number of tasks and belong to the nodes of the mapping, and the average
of every other node is undefined. -/
theorem measure_spec (sqrt : F → F) (getTime : TaskPath → F) {granularity : Nat} {mask : List Bool}
    {mapping : List Nat} (tasks : mapping.length = 2 ^ granularity)
    (ranks : ∀ rank ∈ mapping, rank < mask.length) :
    ∃ measured, measure sqrt granularity getTime mask mapping = some measured ∧
      measured.nodeAvg.length = mask.length ∧
      Contribution.Kept mapping mask.length ⟨measured.counts, false⟩ ∧
      ∀ node average, measured.nodeAvg[node]? = some average → node ∉ mapping →
        average = ((0 : Nat) : F) / ((0 : Nat) : F) := by
  unfold measure
  simp only [Option.bind_eq_bind]
  have sampled : (sampleTaskCosts getTime granularity .root
      (List.replicate (1 <<< granularity) ((0 : Nat) : F))).length = mapping.length := by
    rw [length_sampleTaskCosts, List.length_replicate, Nat.shiftLeft_eq, Nat.one_mul, tasks]
  generalize sampleTaskCosts getTime granularity .root
    (List.replicate (1 <<< granularity) ((0 : Nat) : F)) = taskCosts at sampled ⊢
  obtain ⟨sums, counts, returned, lengthSums, lengthCounts, sum, counted, kept⟩ :=
    @contribute_spec _ _ mapping taskCosts (List.replicate mask.length ((0 : Nat) : F))
      (List.replicate mask.length 0) mask.length sampled ranks List.length_replicate
      List.length_replicate
  have none (node : Nat) : (List.replicate mask.length 0).getD node 0 = 0 := by
    rw [List.getD_eq_getElem?_getD, List.getElem?_replicate]
    split <;> rfl
  simp only [returned, Option.bind_some]
  refine ⟨_, rfl, ?_, ⟨lengthCounts, ?_, fun node => ?_⟩, fun node average found unused => ?_⟩
  · rw [List.length_zipWith, lengthSums, lengthCounts, Nat.min_self]
  · rw [sum, List.sum_replicate_nat, Nat.mul_zero, Nat.zero_add]
  · show 0 < counts.getD node 0 ↔ _
    rw [counted, none, Nat.zero_add, List.count_pos_iff]
  · obtain ⟨total, count, foundSum, foundCount, rfl⟩ := List.getElem?_zipWith_eq_some.mp found
    rw [kept node unused, List.getElem?_replicate] at foundSum
    have zero := counted node
    rw [none, List.count_eq_zero_of_not_mem unused, List.getD_eq_getElem?_getD, foundCount] at zero
    have same : count = 0 := zero
    split at foundSum
    · obtain rfl := Option.some.inj foundSum
      rw [same]
    · cases foundSum

end Rounds

/-! ## One round -/

section Round

variable {F : Type} [NatCast F] [Add F] [Sub F] [Div F] [LT F] [DecidableLT F]

/-- The average of a node without a task holds in no comparison. -/
def UndefinedAverage (F : Type) [NatCast F] [Div F] [LT F] : Prop :=
  ∀ x : F, ¬ ((0 : Nat) : F) / ((0 : Nat) : F) < x ∧ ¬ x < ((0 : Nat) : F) / ((0 : Nat) : F)

/-- A round of the loop over the averages consists of a call of `eligable_max` and one of
`eligable_min`, or of less, and both do nothing or a move that is possible. -/
structure Measured.Round (measured : Measured F) (node : Nat)
    (first middle last : Contribution) : Prop where
  /-- The average of the node decides whether the helpers are called. -/
  calls : ∃ average, measured.nodeAvg[node]? = some average ∧
    (if average > measured.upper then eligableMax measured.nodeAvg measured.margin first node
      else some first) = some middle ∧
    (if average < measured.lower then eligableMin measured.nodeAvg measured.margin middle node
      else some middle) = some last
  /-- What `eligable_max` may do. -/
  handed : first.Migrates middle
  /-- What `eligable_min` may do. -/
  taken : middle.Migrates last

/-- With an average for every node, undefined for those without a task, a round returns, and the
counts are kept. -/
theorem adjust_spec {measured : Measured F} {before : List Nat} {size node : Nat}
    {first : Contribution} (undefined : UndefinedAverage F)
    (averages : measured.nodeAvg.length = size)
    (unused : ∀ node average, measured.nodeAvg[node]? = some average → node ∉ before →
      average = ((0 : Nat) : F) / ((0 : Nat) : F))
    (nodes : 2 ≤ size) (fits : before.length < 2 ^ 64) (inside : node < size)
    (kept : first.Kept before size) :
    ∃ middle last,
      adjust measured.nodeAvg measured.margin measured.lower measured.upper first node =
        some last ∧
      measured.Round node first middle last ∧ middle.Kept before size ∧ last.Kept before size := by
  obtain ⟨average, found⟩ := exists_average averages inside
  have served {node : Nat} {average : F} (found : measured.nodeAvg[node]? = some average) (x : F)
      (holds : average < x ∨ x < average) : node ∈ before := by
    by_contra absent
    obtain ⟨below, above⟩ := undefined x
    rw [unused node average found absent] at holds
    exact holds.elim below above
  have compared {self : Contribution} (kept : self.Kept before size) :
      Compared measured.nodeAvg self := fun node average found x holds =>
    (kept.served node).mpr (served found x holds)
  obtain ⟨middle, called, handed⟩ : ∃ middle, (if average > measured.upper then
      eligableMax measured.nodeAvg measured.margin first node else some first) = some middle ∧
      first.Migrates middle := by
    by_cases high : average > measured.upper
    · rw [if_pos high]
      have has := (kept.served node).mpr (served found _ (Or.inr high))
      exact eligableMax_migrates averages kept.length (compared kept) nodes inside has
    · exact ⟨first, if_neg high, Or.inl rfl⟩
  have keptMiddle := kept.migrates fits handed
  obtain ⟨last, called', taken⟩ : ∃ last, (if average < measured.lower then
      eligableMin measured.nodeAvg measured.margin middle node else some middle) = some last ∧
      middle.Migrates last := by
    by_cases low : average < measured.lower
    · rw [if_pos low]
      have has := (keptMiddle.served node).mpr (served found _ (Or.inl low))
      exact eligableMin_migrates averages keptMiddle.length (compared keptMiddle) nodes inside has
    · exact ⟨middle, if_neg low, Or.inl rfl⟩
  refine ⟨middle, last, ?_, ⟨⟨average, found, called, called'⟩, handed, taken⟩, keptMiddle,
    keptMiddle.migrates fits taken⟩
  unfold adjust
  simp only [found, Option.bind_eq_bind, Option.bind_some]
  by_cases high : average > measured.upper
  · rw [if_pos high] at called
    rw [if_pos high, called, Option.bind_some, called']
  · rw [if_neg high] at called
    obtain rfl := Option.some.inj called
    rw [if_neg high, called']

omit [NatCast F] [Div F] in
/-- A round of the loop follows the rounds before. -/
theorem Measured.rounds_succ (measured : Measured F) (n : Nat) :
    measured.rounds (n + 1) = (measured.rounds n).bind fun self =>
      adjust measured.nodeAvg measured.margin measured.lower measured.upper self n := by
  unfold Measured.rounds
  rw [List.range_succ, List.foldlM_append]
  simp only [List.foldlM_cons, List.foldlM_nil, Option.bind_eq_bind, Option.pure_def,
    Option.bind_fun_some]

/-- After every number of rounds the counts are kept. -/
theorem rounds_spec {measured : Measured F} {before : List Nat} {size : Nat}
    (undefined : UndefinedAverage F) (averages : measured.nodeAvg.length = size)
    (unused : ∀ node average, measured.nodeAvg[node]? = some average → node ∉ before →
      average = ((0 : Nat) : F) / ((0 : Nat) : F))
    (nodes : 2 ≤ size) (fits : before.length < 2 ^ 64)
    (kept : Contribution.Kept before size ⟨measured.counts, false⟩) {n : Nat} (inside : n ≤ size) :
    ∃ self, measured.rounds n = some self ∧ self.Kept before size := by
  induction n with
  | zero => exact ⟨_, rfl, kept⟩
  | succ n ih =>
    obtain ⟨self, reached, keptSelf⟩ := ih (by omega)
    obtain ⟨middle, last, adjusted, -, -, keptLast⟩ :=
      adjust_spec undefined averages unused nodes fits (by omega : n < size) keptSelf
    refine ⟨last, ?_, keptLast⟩
    rw [Measured.rounds_succ, reached]
    exact adjusted

end Round

/-! ## The new mapping -/

/-- The ranks that the loop writes for the counts of the nodes from one on. -/
def written (counts : List Nat) (first : Nat) : List Nat :=
  (counts.zipIdx first).flatMap fun (count, node) => List.replicate count node

/-- The ranks of a node are written before those of the nodes behind it. -/
theorem written_cons (count : Nat) (counts : List Nat) (first : Nat) :
    written (count :: counts) first = List.replicate count first ++ written counts (first + 1) := by
  unfold written
  rw [List.zipIdx_cons, List.flatMap_cons]

/-- As many ranks are written as there are tasks. -/
theorem length_written (counts : List Nat) (first : Nat) :
    (written counts first).length = counts.sum := by
  induction counts generalizing first with
  | nil => rfl
  | cons count counts ih =>
    rw [written_cons, List.length_append, List.length_replicate, ih, List.sum_cons]

/-- The ranks that are written are those of the nodes with tasks. -/
theorem mem_written {counts : List Nat} {first node : Nat} :
    node ∈ written counts first ↔ first ≤ node ∧ 0 < counts.getD (node - first) 0 := by
  induction counts generalizing first with
  | nil => simp [written]
  | cons count counts ih =>
    rw [written_cons, List.mem_append, List.mem_replicate, ih]
    rcases Nat.lt_trichotomy node first with before | here | behind
    · omega
    · subst here
      rw [Nat.sub_self, List.getD_cons_zero]
      omega
    · have next : node - first = node - (first + 1) + 1 := by omega
      rw [next, List.getD_cons_succ]
      omega

/-- The ranks are written in ascending order. -/
theorem ascending_written (counts : List Nat) (first : Nat) :
    (written counts first).Pairwise (· ≤ ·) := by
  induction counts generalizing first with
  | nil => exact List.Pairwise.nil
  | cons count counts ih =>
    rw [written_cons, List.pairwise_append]
    refine ⟨?_, ih (first + 1), fun rank here rank' behind => ?_⟩
    · apply List.pairwise_replicate.mpr
      exact Or.inr (Nat.le_refl first)
    · have same := (List.mem_replicate.mp here).2
      have later := (mem_written.mp behind).1
      omega

/-- With counts that add up to the number of tasks, the new mapping is written over the whole old
one: it is in ascending order, and its ranks are those of the nodes with tasks. -/
theorem generateMapping_spec {before : List Nat} {size : Nat} {self : Contribution}
    (kept : self.Kept before size) :
    ∃ after, generateMapping before self.counts = some after ∧ after.length = before.length ∧
      after.Pairwise (· ≤ ·) ∧ ∀ node, node ∈ after ↔ node ∈ before := by
  have length : (written self.counts 0).length = before.length :=
    (length_written self.counts 0).trans kept.sum
  refine ⟨written self.counts 0, ?_, length, ascending_written self.counts 0, fun node => ?_⟩
  · unfold generateMapping
    show (if (written self.counts 0).length ≤ before.length then
      some (written self.counts 0 ++ before.drop (written self.counts 0).length) else none) = _
    rw [if_pos (Nat.le_of_eq length), length, List.drop_length, List.append_nil]
  · rw [mem_written, ← kept.served node]
    simp [Contribution.tasks]

section Redistribution

variable {F : Type} [NatCast F] [Add F] [Sub F] [Mul F] [Div F] [OfScientific F] [LT F]
  [DecidableLT F]

/-- What `create_rebalanced` makes of an old mapping: it is measured, every round of the loop moves
tasks with care, and the new mapping has as many tasks on the same nodes. -/
structure Rebalanced (granularity : Nat) (mask : List Bool) (before : List Nat)
    (measured : Measured F) (after : List Nat) : Prop where
  /-- After every number of rounds the counts are kept. -/
  rounds : ∀ n ≤ mask.length, ∃ self, measured.rounds n = some self ∧ self.Kept before mask.length
  /-- Every round calls the helpers, which do nothing or a possible move, and the counts are kept
  after each of them. -/
  calls : ∀ n < mask.length, ∃ first middle last, measured.rounds n = some first ∧
    measured.rounds (n + 1) = some last ∧ measured.Round n first middle last ∧
    middle.Kept before mask.length
  /-- The counts with which the mapping is generated are kept. -/
  generated : ∃ self, measured.contribution = some self ∧ self.Kept before mask.length
  /-- The new mapping is computed. -/
  computed : measured.redistribute before = some after
  /-- It has a rank for every task. -/
  length : after.length = 2 ^ granularity
  /-- The nodes with tasks remain the same. -/
  nodes : ∀ node, node ∈ after ↔ node ∈ before
  /-- It is the old one, or in ascending order. -/
  order : after = before ∨ after.Pairwise (· ≤ ·)

/-- From every mapping onto nodes of a network of at least two, `create_rebalanced` makes a mapping
with the same nodes. -/
theorem exists_rebalanced (undefined : UndefinedAverage F) (sqrt : F → F) (getTime : TaskPath → F)
    {granularity : Nat} {mask : List Bool} {before : List Nat} (nodes : 2 ≤ mask.length)
    (tasks : before.length = 2 ^ granularity) (ranks : ∀ rank ∈ before, rank < mask.length)
    (fits : 2 ^ granularity < 2 ^ 64) :
    ∃ measured after, measure sqrt granularity getTime mask before = some measured ∧
      Rebalanced granularity mask before measured after := by
  obtain ⟨measured, returned, averages, kept, unused⟩ := measure_spec sqrt getTime tasks ranks
  have small : before.length < 2 ^ 64 := by omega
  have rounds {n : Nat} (within : n ≤ mask.length) :=
    rounds_spec undefined averages unused nodes small kept within
  obtain ⟨self, contribution, keptSelf⟩ : ∃ self, measured.contribution = some self ∧
      self.Kept before mask.length := by
    unfold Measured.contribution
    split
    · exact ⟨_, rfl, kept⟩
    · rw [averages]
      exact rounds (Nat.le_refl _)
  have calls (n : Nat) (inside : n < mask.length) : ∃ first middle last,
      measured.rounds n = some first ∧ measured.rounds (n + 1) = some last ∧
      measured.Round n first middle last ∧ middle.Kept before mask.length := by
    obtain ⟨first, reached, keptFirst⟩ := rounds (Nat.le_of_lt inside)
    obtain ⟨middle, last, adjusted, round, keptMiddle, -⟩ :=
      adjust_spec undefined averages unused nodes small inside keptFirst
    refine ⟨first, middle, last, reached, ?_, round, keptMiddle⟩
    rw [Measured.rounds_succ, reached]
    exact adjusted
  have redistribute (mapping : List Nat) : measured.redistribute mapping =
      if self.updateMapping then generateMapping mapping self.counts else some mapping := by
    unfold Measured.redistribute
    rw [contribution]
    rfl
  by_cases updated : self.updateMapping = true
  · obtain ⟨after, generated, length, ascending, same⟩ := generateMapping_spec keptSelf
    have computed : measured.redistribute before = some after := by
      rw [redistribute, if_pos updated, generated]
    exact ⟨measured, after, returned, fun n within => rounds within, calls,
      ⟨self, contribution, keptSelf⟩, computed, length.trans tasks, same, Or.inr ascending⟩
  · have computed : measured.redistribute before = some before := by
      rw [redistribute, if_neg updated]
    exact ⟨measured, before, returned, fun n within => rounds within, calls,
      ⟨self, contribution, keptSelf⟩, computed, tasks, fun _ => Iff.rfl, Or.inl rfl⟩

/-- `create_rebalanced` from task times keeps an ascending mapping whole: in every round the counts
add up to the number of tasks and no node gives away its last task, and the new mapping, which is
what is encoded, is in ascending order and leaves no node without tasks that had one. -/
theorem createRebalanced_whole (undefined : UndefinedAverage F) (sqrt : F → F)
    (old : TreeSchedulingPolicy) (getTime : TaskPath → F) (mask : List Bool) (fuel : Nat)
    {before : List Nat} (nodes : 2 ≤ mask.length)
    (read : old.taskDistributionMapping fuel = some before) (ascending : before.Pairwise (· ≤ ·))
    (ranks : ∀ rank ∈ before, rank < mask.length) (fits : 2 ^ old.granularity < 2 ^ 64) :
    ∃ measured after, measure sqrt old.granularity getTime mask before = some measured ∧
      Rebalanced old.granularity mask before measured after ∧ after.Pairwise (· ≤ ·) ∧
      (∀ rank ∈ after, rank < mask.length) ∧
      createRebalanced sqrt old getTime mask fuel =
        (toDecisionTree (1 <<< old.root.layer) after).map fun tree =>
          ⟨old.root, old.granularity, tree⟩ := by
  have tasks := length_taskDistributionMapping read
  obtain ⟨measured, after, returned, rebalanced⟩ :=
    exists_rebalanced undefined sqrt getTime nodes tasks ranks fits
  refine ⟨measured, after, returned, rebalanced, ?_, fun rank found => ?_, ?_⟩
  · rcases rebalanced.order with same | sorted
    · rwa [same]
    · exact sorted
  · exact ranks rank ((rebalanced.nodes rank).mp found)
  · rw [createRebalanced_eq, read, Option.bind_some, returned, Option.bind_some,
      rebalanced.computed, Option.bind_some]

end Redistribution

/-! ## Arithmetic with an undefined quotient -/

/-- A number, or the undefined quotient of a division by zero. -/
structure MaybeRat where
  /-- The number. -/
  value : Option ℚ

namespace MaybeRat

/-- An operation is undefined when one of its arguments is. -/
def lift (op : ℚ → ℚ → ℚ) (a b : MaybeRat) : MaybeRat :=
  ⟨a.value.bind fun x => b.value.map fun y => op x y⟩

/-- Numbers of tasks are numbers. -/
instance : NatCast MaybeRat := ⟨fun n => ⟨some n⟩⟩

/-- Decimals are numbers. -/
instance : OfScientific MaybeRat := ⟨fun mantissa negative exponent =>
  ⟨some (OfScientific.ofScientific mantissa negative exponent)⟩⟩

/-- Sums of numbers are numbers. -/
instance : Add MaybeRat := ⟨lift (· + ·)⟩

/-- Differences of numbers are numbers. -/
instance : Sub MaybeRat := ⟨lift (· - ·)⟩

/-- Products of numbers are numbers. -/
instance : Mul MaybeRat := ⟨lift (· * ·)⟩

/-- Only the quotients of a division by zero are undefined. -/
instance : Div MaybeRat := ⟨fun a b => if b.value = some 0 then ⟨none⟩ else lift (· / ·) a b⟩

/-- No comparison with an undefined quotient holds. -/
def less (a b : MaybeRat) : Bool :=
  match a.value, b.value with
  | some x, some y => x < y
  | _, _ => false

/-- The comparison of two numbers. -/
instance : LT MaybeRat := ⟨fun a b => a.less b = true⟩

/-- A comparison is computed. -/
instance : DecidableLT MaybeRat := fun a b => inferInstanceAs (Decidable (a.less b = true))

/-- The square root of a number that is the square of a fraction; the root of a negative number is
undefined. -/
def sqrt (a : MaybeRat) : MaybeRat :=
  ⟨a.value.bind fun x => if x < 0 then none else some (Rat.sqrt x)⟩

end MaybeRat

/-- The average of a node without a task is undefined. -/
theorem undefinedAverage_maybeRat : UndefinedAverage MaybeRat := by
  have undefined : ((0 : Nat) : MaybeRat) / ((0 : Nat) : MaybeRat) = ⟨none⟩ := rfl
  intro x
  rw [undefined]
  refine ⟨fun below => ?_, fun above => ?_⟩
  · exact Bool.noConfusion (show false = true from below)
  · cases x with
    | mk value => cases value <;> exact Bool.noConfusion (show false = true from above)

/-- A policy for two nodes with two tasks on each of them. -/
def evenPolicy : TreeSchedulingPolicy := ⟨getRootOfNetworkSize 2, 2, ⟨[228, 0, 0, 0, 0, 0, 0, 0]⟩⟩

/-- The first two tasks take five units of time, the others take one. -/
def unevenTime (path : TaskPath) : MaybeRat := if path.getPath < 2 then ⟨some 5⟩ else ⟨some 1⟩

/-- Two tasks of the first node take longer than those of the second one; the variance of a sample
is one, which is its own square root. -/
theorem createRebalanced_whole_two :
    ∃ measured after, measure MaybeRat.sqrt 2 unevenTime [true, true] [0, 0, 1, 1] = some measured ∧
      Rebalanced 2 [true, true] [0, 0, 1, 1] measured after ∧ after.Pairwise (· ≤ ·) ∧
      (∀ rank ∈ after, rank < 2) ∧
      createRebalanced MaybeRat.sqrt evenPolicy unevenTime [true, true] 4 =
        (toDecisionTree (1 <<< (getRootOfNetworkSize 2).layer) after).map fun tree =>
          ⟨getRootOfNetworkSize 2, 2, tree⟩ :=
  createRebalanced_whole undefinedAverage_maybeRat MaybeRat.sqrt evenPolicy unevenTime
    [true, true] 4 (Nat.le_refl 2) (by decide) (by decide) (by decide) (by decide)

/-- The first node hands over one of its tasks. -/
example : (createRebalanced MaybeRat.sqrt evenPolicy unevenTime [true, true] 4).bind (fun policy =>
    policy.taskDistributionMapping 4) = some [0, 1, 1, 1] := by
  decide +kernel

end TreeSchedulingPolicy

end AllScale
