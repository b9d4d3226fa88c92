import AllScale.SchedulePolicy.TreePolicy

/-!
# Rebalancing by task times

`create_rebalanced` samples the time of every task of the granularity level, averages it for every
node, and moves tasks between neighbours whose averages lie outside of a confidence interval. The
arithmetic of `float` is a parameter: the operations of a type, and its square root.
-/

namespace AllScale

namespace TreeSchedulingPolicy

variable {F : Type} [NatCast F] [Add F] [Sub F] [Mul F] [Div F] [OfScientific F] [LT F]
  [DecidableLT F]

/-- `sample_task_costs`, for the paths that lie a number of levels below a path. -/
def sampleTaskCosts (getTime : TaskPath → F) : (levels : Nat) → TaskPath → List F → List F
  | 0, cur, res => res.set cur.getPath (getTime cur)
  | levels + 1, cur, res =>
    sampleTaskCosts getTime levels cur.getRightChildPath
      (sampleTaskCosts getTime levels cur.getLeftChildPath res)

/-- How many tasks every node is to be given. -/
structure Contribution where
  /-- `node_contribution`. -/
  counts : List Nat
  /-- `update_mapping` — a task has been moved. -/
  updateMapping : Bool

/-- One task less for a node and one more for another, in counters of 64 bits. -/
def Contribution.move (self : Contribution) (source target : Nat) : Contribution where
  counts := (self.counts.modify source fun count => (count + 2 ^ 64 - 1) % 2 ^ 64).modify target
    fun count => (count + 1) % 2 ^ 64
  updateMapping := true

/-- `eligable_max` — a node with a high average hands a task to the neighbour with the smaller
one. -/
def eligableMax (nodeAvg : List F) (margin : F) (self : Contribution) (node : Nat) :
    Option Contribution := do
  if (← self.counts[node]?) = 1 then return self
  let targetNode ←
    if node = 0 then some (node + 1)
    else if node = nodeAvg.length - 1 then some (node - 1)
    else do
      let before ← nodeAvg[node - 1]?
      let behind ← nodeAvg[node + 1]?
      some (if before < behind then node - 1 else node + 1)
  if (← nodeAvg[targetNode]?) < (← nodeAvg[node]?) - margin then return self.move node targetNode
  return self

/-- `eligable_min` — a node with a low average takes a task from the neighbour with the larger
one. -/
def eligableMin (nodeAvg : List F) (margin : F) (self : Contribution) (node : Nat) :
    Option Contribution := do
  let targetNode ←
    if node = 0 then some (node + 1)
    else if node = nodeAvg.length - 1 then some (node - 1)
    else do
      let before ← nodeAvg[node - 1]?
      let behind ← nodeAvg[node + 1]?
      some (if before < behind then node + 1 else node - 1)
  if (← self.counts[targetNode]?) = 1 then return self
  if (← nodeAvg[targetNode]?) > (← nodeAvg[node]?) + margin then return self.move targetNode node
  return self

/-- The round of the loop over the averages for one node. -/
def adjust (nodeAvg : List F) (margin lower upper : F) (self : Contribution) (node : Nat) :
    Option Contribution := do
  let average ← nodeAvg[node]?
  let self ← if average > upper then eligableMax nodeAvg margin self node else some self
  if average < lower then eligableMin nodeAvg margin self node else some self

/-- The loop that adds the cost of every task to the sum of its node and counts the tasks of the
node. -/
def contribute : (mapping : List Nat) → (taskCosts sums : List F) → (counts : List Nat) →
    Option (List F × List Nat)
  | [], _, sums, counts => some (sums, counts)
  | _ :: _, [], _, _ => none
  | node :: mapping, cost :: taskCosts, sums, counts =>
    if node < sums.length ∧ node < counts.length then
      contribute mapping taskCosts (sums.modify node (· + cost)) (counts.modify node (· + 1))
    else none

/-- The loop that writes the new mapping over the old one. -/
def generateMapping (mapping counts : List Nat) : Option (List Nat) :=
  let written := counts.zipIdx.flatMap fun (count, node) => List.replicate count node
  if written.length ≤ mapping.length then some (written ++ mapping.drop written.length) else none

/-- `tree_scheduling_policy::create_rebalanced` for measured task times; `getTime` is
`task_times::get_time`, and `fuel` bounds the loops of `task_distribution_mapping`. -/
def createRebalanced (sqrt : F → F) (old : TreeSchedulingPolicy) (getTime : TaskPath → F)
    (mask : List Bool) (fuel : Nat) : Option TreeSchedulingPolicy := do
  let mappingSize := 1 <<< old.granularity
  let taskCosts := sampleTaskCosts getTime old.granularity .root
    (List.replicate mappingSize ((0 : Nat) : F))
  let mapping ← old.taskDistributionMapping fuel
  let size := (taskCosts.length : F)
  let total := taskCosts.foldl (· + ·) ((0 : Nat) : F)
  let avg := total / size
  let sumDist := taskCosts.foldl
    (fun sumDist cost =>
      let dist := cost - avg
      sumDist + dist * dist) ((0 : Nat) : F)
  let var := sumDist / size
  let margin := 1.96 * sqrt (var / size)
  let lower := avg - margin
  let upper := avg + margin
  let (sums, counts) ← contribute mapping taskCosts
    (List.replicate mask.length ((0 : Nat) : F)) (List.replicate mask.length 0)
  let nodeAvg := List.zipWith (fun sum count => sum / ((count : Nat) : F)) sums counts
  let unchanged : Contribution := ⟨counts, false⟩
  let contribution ←
    if var < 0.01 then some unchanged
    else (List.range nodeAvg.length).foldlM (adjust nodeAvg margin lower upper) unchanged
  let mapping ←
    if contribution.updateMapping then generateMapping mapping contribution.counts
    else some mapping
  let log2 := old.root.layer
  some ⟨old.root, old.granularity, ← toDecisionTree (1 <<< log2) mapping⟩

end TreeSchedulingPolicy

end AllScale
