import AllScale.Optimizer.DecideSchedule
import AllScale.Optimizer.InternodeOptimizer

/-!
# Measurements for the inter-node optimizer

`balance_ino` hands the measurements of the nodes to the optimizer. The loop that collects them
increases its index twice in every iteration, so that it takes the states of the first nodes and
gives them to every other node. The optimizer sees the active nodes' own measurements only in two
cases, in which this makes no difference.
-/

namespace AllScale

/-- `optimizer_state`, without what `balance_ino` does not read. -/
structure OptimizerState (F : Type) where
  /-- `load_`. -/
  load : F
  /-- `avg_time_`. -/
  avgTime : F
  /-- `energy_`. -/
  energy : Nat

/-- Why `balance_ino` does not return. -/
inductive BalanceFault where
  /-- A state that does not exist is read. -/
  | noState
  /-- The optimizer does not return a configuration. -/
  | draw (fault : DrawFault)
  /-- `at` throws in `decide_schedule`. -/
  | outOfRange
  deriving DecidableEq

/-- The vectors and maps that are filled from the states. -/
structure NodeMeasurements (F : Type) where
  /-- `node_loads`. -/
  nodeLoads : OrderedMap Nat F
  /-- `node_times`. -/
  nodeTimes : OrderedMap Nat F
  /-- `ino_loads`. -/
  inoLoads : List F
  /-- `ino_times`. -/
  inoTimes : List F
  /-- `ino_energies`. -/
  inoEnergies : List F

namespace GlobalOptimizer

variable {F : Type}

section Code

variable [NatCast F] [OfScientific F] [LT F] [DecidableLT F]

/-- `max_time` — the greatest average time, or `0.1` if that is greater; `none` without a state. -/
def maxTime : List (OptimizerState F) → Option F
  | [] => none
  | first :: rest =>
    let maxTime := rest.foldl (fun currMax s => if currMax < s.avgTime then s.avgTime else currMax)
      first.avgTime
    some (if maxTime < 0.1 then 0.1 else maxTime)

/-- A node without a time gets the greatest time. -/
def fillTime (maxTime : F) (it : OptimizerState F) : OptimizerState F :=
  if it.avgTime < 0.1 then { it with avgTime := maxTime } else it

/-- The states, with the greatest time for the nodes without a time. -/
def fillTimes (state : List (OptimizerState F)) : Option (List (OptimizerState F)) :=
  (maxTime state).map fun maxTime => state.map (fillTime maxTime)

/-- `node_map` — the tasks of every node in a mapping. -/
def nodeMap (oldMapping : List Nat) : OrderedMap Nat (List Nat) :=
  oldMapping.zipIdx.foldl (fun nodeMap it => nodeMap.update it.1 [] (· ++ [it.2])) .empty

/-- The body of the loop over the states, at an index. -/
def addState (measured : NodeMeasurements F) (idx : Nat) (node : OptimizerState F) :
    NodeMeasurements F :=
  { nodeLoads := measured.nodeLoads.update idx 0.0 fun _ => node.load
    nodeTimes := measured.nodeTimes.update idx 0.0 fun _ => node.avgTime
    inoLoads := measured.inoLoads ++ [node.load]
    inoTimes := measured.inoTimes ++ [node.avgTime]
    inoEnergies := measured.inoEnergies ++ [(node.energy : F)] }

/-- The loop over the states from `node` on; `none` when it reads beyond them. -/
def measureNodes (numActiveNodes : Nat) (idx : Nat) (measured : NodeMeasurements F) :
    (node : List (OptimizerState F)) → Option (NodeMeasurements F)
  | [] => if idx ≤ numActiveNodes then none else some measured
  | node :: rest =>
    if idx ≤ numActiveNodes then
      -- the index is increased by the second assignment and by the loop
      measureNodes numActiveNodes (idx + 1 + 1) (addState measured idx node) rest
    else some measured

/-- What `balance_ino` collects from the states before it asks the optimizer. -/
def collect (activeNodes : List Bool) (state : List (OptimizerState F)) :
    Option (NodeMeasurements F) := do
  measureNodes (activeNodes.count true) 0 ⟨.empty, .empty, [], [], []⟩ (← fillTimes state)

/-- `new_mapping`, from a schedule. -/
def newMapping (oldMapping : List Nat) (inoSchedule : OrderedMap Nat (List Nat)) : List Nat :=
  inoSchedule.entries.foldl (fun newMapping nodeWis =>
    nodeWis.2.foldl (fun newMapping wi => newMapping.set wi nodeWis.1) newMapping)
    (List.replicate oldMapping.length 0)

variable [Add F] [Sub F] [Mul F] [Div F] [LE F] [DecidableLE F]

/-- `global_optimizer::balance_ino`, for the states of all localities: the mapping that is sent to
them, if any, and the optimizer. -/
def balanceIno (sortEntries : StdSort (ParetoEntry F)) (beyond : F) (canShuffle : Bool)
    (sort : StdSort (Nat × F)) (shuffle : Shuffle (F × Nat)) (oIno : InternodeOptimizer F)
    (activeNodes : List Bool) (state : List (OptimizerState F)) (oldMapping draws : List Nat) :
    Except BalanceFault (Option (List Nat) × InternodeOptimizer F) :=
  match collect activeNodes state with
  | none => .error .noState
  | some measured =>
    match oIno.getNodeConfiguration sortEntries beyond measured.inoLoads measured.inoTimes
      measured.inoEnergies none draws with
    | .error fault => .error (.draw fault)
    | .ok (knobs, oIno) =>
      match InternodeOptimizer.decideSchedule canShuffle sort shuffle (nodeMap oldMapping)
        measured.nodeLoads measured.nodeTimes knobs false 1 1 with
      | none => .error .outOfRange
      | some inoSchedule =>
        .ok (if inoSchedule.entries ≠ [] then some (newMapping oldMapping inoSchedule) else none,
          oIno)

/-- A map has the active nodes as its keys, with values of their own states. -/
structure Owns (value : OptimizerState F → F) (activeNodes : List Bool)
    (state : List (OptimizerState F)) (map : OrderedMap Nat F) : Prop where
  /-- The keys are the active nodes. -/
  keys : ∀ i, i ∈ map.keys ↔ activeNodes[i]? = some true
  /-- The values are those of the states. -/
  values : ∀ i s, activeNodes[i]? = some true → state[i]? = some s → map.find? i = some (value s)

/-- The optimizer sees the measurements of the active nodes: the states that are read exist, loads
and times are those of the active nodes, and all nodes are found by `decide_schedule` when every
active node has a task. -/
structure SeesOwn (activeNodes : List Bool) (state : List (OptimizerState F)) : Prop where
  /-- The loads and times are those of the active nodes. -/
  own : ∃ filled measured, fillTimes state = some filled ∧
    collect activeNodes state = some measured ∧
    Owns OptimizerState.load activeNodes filled measured.nodeLoads ∧
    Owns OptimizerState.avgTime activeNodes filled measured.nodeTimes
  /-- No `at` throws. -/
  found : ∀ oldMapping : List Nat, (∀ i, activeNodes[i]? = some true → i ∈ oldMapping) →
    ∀ sortEntries beyond canShuffle sort shuffle oIno draws,
      balanceIno sortEntries beyond canShuffle sort shuffle oIno activeNodes state oldMapping
        draws ≠ .error .outOfRange

end Code

/-! ## Times -/

variable [OfScientific F]

section Times

variable [LinearOrder F]

/-- The greatest time is that of a state, or `0.1` if no state has more. -/
theorem maxTime_spec {state : List (OptimizerState F)} {greatest : F}
    (found : maxTime state = some greatest) :
    (∀ s ∈ state, s.avgTime ≤ greatest) ∧ (greatest = 0.1 ∨ ∃ s ∈ state, greatest = s.avgTime) := by
  have loop (rest : List (OptimizerState F)) (first : F) :
      let most := rest.foldl (fun currMax s => if currMax < s.avgTime then s.avgTime else currMax)
        first
      first ≤ most ∧ (∀ s ∈ rest, s.avgTime ≤ most) ∧
        (most = first ∨ ∃ s ∈ rest, most = s.avgTime) := by
    induction rest generalizing first with
    | nil => exact ⟨le_refl _, fun _ found => absurd found List.not_mem_nil, .inl rfl⟩
    | cons s rest ih =>
      obtain ⟨start, all, attained⟩ := ih (max first s.avgTime)
      rw [List.foldl_cons, ← max_def_lt]
      refine ⟨(le_max_left _ _).trans start, fun t found => ?_, ?_⟩
      · rcases List.mem_cons.mp found with rfl | found
        · exact (le_max_right _ _).trans start
        · exact all t found
      · rcases attained with same | ⟨t, found, same⟩
        · rcases max_choice first s.avgTime with choice | choice
          · exact .inl (same.trans choice)
          · exact .inr ⟨s, List.mem_cons_self, same.trans choice⟩
        · exact .inr ⟨t, List.mem_cons_of_mem _ found, same⟩
  match state with
  | [] => exact absurd found nofun
  | first :: rest =>
    obtain ⟨start, all, attained⟩ := loop rest first.avgTime
    rw [maxTime, Option.some.injEq] at found
    generalize rest.foldl _ first.avgTime = most at found start all attained
    have below : most ≤ greatest := by
      rw [← found]
      split
      · exact le_of_lt ‹_›
      · exact le_refl _
    refine ⟨fun s there => ?_, ?_⟩
    · rcases List.mem_cons.mp there with rfl | there
      · exact start.trans below
      · exact (all s there).trans below
    · rw [← found]
      split
      · exact .inl rfl
      · rcases attained with same | ⟨s, there, same⟩
        · exact .inr ⟨first, List.mem_cons_self, same⟩
        · exact .inr ⟨s, List.mem_cons_of_mem _ there, same⟩

/-- A node gets the greatest time: it has none, or none of the others is greater. -/
def TakesGreatest (state : List (OptimizerState F)) (s : OptimizerState F) : Prop :=
  s.avgTime < 0.1 ∨ ∀ t ∈ state, t.avgTime ≤ s.avgTime

/-- Two nodes have the same time, or both get the greatest one. -/
def SameTime (state : List (OptimizerState F)) (s s' : OptimizerState F) : Prop :=
  s.avgTime = s'.avgTime ∨ TakesGreatest state s ∧ TakesGreatest state s'

/-- The states of which the active nodes get their own measurements: only the first node is active,
or the first and the third one, and the second and the third one have the same measurements. -/
def OwnStates (activeNodes : List Bool) (state : List (OptimizerState F)) : Prop :=
  (∀ i, activeNodes[i]? = some true ↔ i = 0) ∨
    (∀ i, activeNodes[i]? = some true ↔ i = 0 ∨ i = 2) ∧
      ∃ second third, state[1]? = some second ∧ state[2]? = some third ∧
        second.load = third.load ∧ SameTime state second third

/-- A node has the greatest time in the end exactly if it gets it. -/
theorem fillTime_eq_iff {state : List (OptimizerState F)} {greatest : F}
    (found : maxTime state = some greatest) {s : OptimizerState F} (there : s ∈ state) :
    (fillTime greatest s).avgTime = greatest ↔ TakesGreatest state s := by
  obtain ⟨all, attained⟩ := maxTime_spec found
  unfold fillTime TakesGreatest
  split
  · rename_i small
    exact ⟨fun _ => .inl small, fun _ => rfl⟩
  · rename_i measured
    constructor
    · intro same
      exact .inr fun t found => same ▸ all t found
    · intro takes
      have most := takes.resolve_left measured
      refine le_antisymm (all s there) ?_
      rcases attained with same | ⟨t, found, same⟩
      · rw [same]
        exact not_lt.mp measured
      · rw [same]
        exact most t found

/-- Two nodes have the same time in the end exactly if they have the same time at first or both get
the greatest one. -/
theorem fillTime_same_iff {state : List (OptimizerState F)} {greatest : F}
    (found : maxTime state = some greatest) {s s' : OptimizerState F} (there : s ∈ state)
    (there' : s' ∈ state) :
    (fillTime greatest s).avgTime = (fillTime greatest s').avgTime ↔ SameTime state s s' := by
  constructor
  · intro same
    by_cases takes : TakesGreatest state s
    · have most := (fillTime_eq_iff found there).mpr takes
      exact .inr ⟨takes, (fillTime_eq_iff found there').mp (same ▸ most)⟩
    · have measured : ¬ s.avgTime < 0.1 := fun small => takes (.inl small)
      by_cases takes' : TakesGreatest state s'
      · have most := (fillTime_eq_iff found there').mpr takes'
        exact absurd ((fillTime_eq_iff found there).mp (same.trans most)) takes
      · have measured' : ¬ s'.avgTime < 0.1 := fun small => takes' (.inl small)
        unfold fillTime at same
        rw [if_neg measured, if_neg measured'] at same
        exact .inl same
  · rintro (same | ⟨takes, takes'⟩)
    · unfold fillTime
      rw [same]
      split
      · rfl
      · exact same
    · rw [(fillTime_eq_iff found there).mpr takes, (fillTime_eq_iff found there').mpr takes']

/-- The load of a node stays the same. -/
theorem load_fillTime (greatest : F) (s : OptimizerState F) :
    (fillTime greatest s).load = s.load := by
  unfold fillTime
  split <;> rfl

/-- The times are filled in when there is a state. -/
theorem fillTimes_of_ne_nil {state : List (OptimizerState F)} (nonempty : state ≠ []) :
    ∃ greatest, maxTime state = .some greatest ∧
      fillTimes state = .some (state.map (fillTime greatest)) := by
  unfold fillTimes
  match state with
  | [] => exact absurd rfl nonempty
  | first :: rest => exact ⟨_, rfl, rfl⟩

end Times

/-! ## The loop -/

variable [NatCast F]

/-- The loop reads as many states as there are even numbers up to the number of active nodes, and
gives each of them to the node with twice its index. -/
theorem measureNodes_spec {numActiveNodes idx : Nat} (measured : NodeMeasurements F)
    {node : List (OptimizerState F)} (enough : numActiveNodes < idx + 2 * node.length) :
    ∃ measured', measureNodes numActiveNodes idx measured node = some measured' ∧ ∀ key,
      (∃ j, key = idx + 2 * j ∧ key ≤ numActiveNodes ∧ ∃ s, node[j]? = some s ∧
        measured'.nodeLoads.find? key = some s.load ∧
        measured'.nodeTimes.find? key = some s.avgTime) ∨
      (¬ (∃ j, key = idx + 2 * j ∧ key ≤ numActiveNodes) ∧
        measured'.nodeLoads.find? key = measured.nodeLoads.find? key ∧
        measured'.nodeTimes.find? key = measured.nodeTimes.find? key) := by
  induction node generalizing idx measured with
  | nil =>
    have done : ¬ idx ≤ numActiveNodes := by
      rw [List.length_nil] at enough
      omega
    refine ⟨measured, if_neg done, fun key => .inr ⟨?_, rfl, rfl⟩⟩
    rintro ⟨j, rfl, bound⟩
    omega
  | cons first rest ih =>
    rw [measureNodes]
    split
    · rename_i more
      rw [List.length_cons] at enough
      obtain ⟨measured', loop, values⟩ := @ih (idx + 1 + 1) (addState measured idx first) (by omega)
      refine ⟨measured', loop, fun key => ?_⟩
      rcases values key with ⟨j, rfl, bound, s, there, load, time⟩ | ⟨other, load, time⟩
      · exact .inl ⟨j + 1, by omega, bound, s, there, load, time⟩
      · by_cases here : key = idx
        · subst here
          refine .inl ⟨0, rfl, more, first, rfl, ?_, ?_⟩
          · rw [load]
            exact OrderedMap.find?_update_self _ _ _ _
          · rw [time]
            exact OrderedMap.find?_update_self _ _ _ _
        · refine .inr ⟨?_, ?_, ?_⟩
          · rintro ⟨j, same, bound⟩
            exact other ⟨j - 1, by omega, bound⟩
          · rw [load]
            exact OrderedMap.find?_update_of_ne _ here _ _
          · rw [time]
            exact OrderedMap.find?_update_of_ne _ here _ _
    · rename_i done
      refine ⟨measured, rfl, fun key => .inr ⟨?_, rfl, rfl⟩⟩
      rintro ⟨j, rfl, bound⟩
      omega

/-- When every other element from the first one up to an index is set and nothing else, this many
are set. -/
theorem count_even {n : Nat} {mask : List Bool}
    (set : ∀ i, mask[i]? = some true ↔ i ≤ n ∧ i % 2 = 0) : mask.count true = n / 2 + 1 := by
  induction n using Nat.strongRecOn generalizing mask with
  | ind n ih =>
    match mask with
    | [] => exact absurd ((set 0).mpr ⟨Nat.zero_le _, rfl⟩) nofun
    | false :: rest => exact absurd ((set 0).mpr ⟨Nat.zero_le _, rfl⟩) nofun
    | [true] =>
      have small : ¬ 2 ≤ n := fun two => nomatch (set 2).mpr ⟨two, rfl⟩
      rw [List.count_singleton_self]
      omega
    | true :: true :: rest => exact absurd ((set 1).mp rfl).2 (by decide)
    | true :: false :: rest =>
      rw [List.count_cons_self, List.count_cons_of_ne (by decide)]
      by_cases more : 2 ≤ n
      · have behind (i : Nat) : rest[i]? = some true ↔ i ≤ n - 2 ∧ i % 2 = 0 := by
          rw [show rest[i]? = (true :: false :: rest)[i + 2]? from rfl, set]
          omega
        rw [ih (n - 2) (by omega) behind]
        omega
      · have zero : rest.count true = 0 := by
          rw [List.count_eq_zero, List.mem_iff_getElem?]
          rintro ⟨i, found⟩
          have bound := (set (i + 2)).mp found
          omega
        omega

/-- The keys are the nodes of a mapping. -/
theorem mem_keys_nodeMap {oldMapping : List Nat} {node : Nat} :
    node ∈ (nodeMap oldMapping).keys ↔ node ∈ oldMapping := by
  have loop (list : List (Nat × Nat)) (map : OrderedMap Nat (List Nat)) :
      node ∈ (list.foldl (fun nodeMap it => nodeMap.update it.1 [] (· ++ [it.2])) map).keys ↔
        node ∈ map.keys ∨ node ∈ list.map Prod.fst := by
    induction list generalizing map with
    | nil =>
      rw [List.map_nil, List.mem_nil_iff, or_false]
      rfl
    | cons it list ih =>
      rw [List.foldl_cons, ih, OrderedMap.mem_keys_update, List.map_cons, List.mem_cons]
      tauto
  unfold nodeMap
  rw [loop, List.zipIdx_map_fst]
  exact ⟨fun found => found.resolve_left List.not_mem_nil, .inr⟩

/-! ## What the optimizer sees -/

variable [LinearOrder F]

/-- The maps have a node exactly if it is even and not greater than the number of active nodes, with
the measurements of half of it. -/
theorem collect_spec {activeNodes : List Bool} {state : List (OptimizerState F)}
    (localities : state.length = activeNodes.length) (nonempty : state ≠ []) :
    ∃ greatest measured, maxTime state = .some greatest ∧
      collect activeNodes state = .some measured ∧
      (∀ key, key ∈ measured.nodeLoads.keys ↔ key ≤ activeNodes.count true ∧ key % 2 = 0) ∧
      (∀ key, key ∈ measured.nodeTimes.keys ↔ key ≤ activeNodes.count true ∧ key % 2 = 0) ∧
      ∀ j, 2 * j ≤ activeNodes.count true → ∃ s, state[j]? = .some s ∧
        measured.nodeLoads.find? (2 * j) = .some s.load ∧
        measured.nodeTimes.find? (2 * j) = .some (fillTime greatest s).avgTime := by
  obtain ⟨greatest, found, filled⟩ := fillTimes_of_ne_nil nonempty
  have enough : activeNodes.count true < 0 + 2 * (state.map (fillTime greatest)).length := by
    have count := List.count_le_length (a := true) (l := activeNodes)
    have positive := List.length_pos_iff.mpr nonempty
    rw [List.length_map]
    omega
  obtain ⟨measured, loop, values⟩ := measureNodes_spec ⟨.empty, .empty, [], [], []⟩ enough
  have even (j : Nat) (bound : 2 * j ≤ activeNodes.count true) : ∃ s, state[j]? = .some s ∧
      measured.nodeLoads.find? (2 * j) = .some s.load ∧
      measured.nodeTimes.find? (2 * j) = .some (fillTime greatest s).avgTime := by
    rcases values (2 * j) with ⟨i, same, -, s, there, load, time⟩ | ⟨other, -, -⟩
    · obtain rfl : j = i := by omega
      rw [List.getElem?_map, Option.map_eq_some_iff] at there
      obtain ⟨s, there, rfl⟩ := there
      rw [load_fillTime] at load
      exact ⟨s, there, load, time⟩
    · exact absurd ⟨j, (Nat.zero_add _).symm, bound⟩ other
  have missing (key : Nat) (other : ¬ (key ≤ activeNodes.count true ∧ key % 2 = 0)) :
      measured.nodeLoads.find? key = none ∧ measured.nodeTimes.find? key = none := by
    rcases values key with ⟨i, same, bound, -⟩ | ⟨-, load, time⟩
    · exact absurd ⟨bound, by omega⟩ other
    · exact ⟨load, time⟩
  have keys {map : OrderedMap Nat F}
      (there : ∀ j, 2 * j ≤ activeNodes.count true → ∃ value, map.find? (2 * j) = .some value)
      (missing : ∀ key, ¬ (key ≤ activeNodes.count true ∧ key % 2 = 0) → map.find? key = none)
      (key : Nat) : key ∈ map.keys ↔ key ≤ activeNodes.count true ∧ key % 2 = 0 := by
    rw [← OrderedMap.exists_find?_iff]
    constructor
    · rintro ⟨value, found⟩
      by_contra other
      exact nomatch found.symm.trans (missing key other)
    · intro bound
      have half : key = 2 * (key / 2) := by omega
      rw [half]
      exact there (key / 2) (half ▸ bound.1)
  refine ⟨greatest, measured, found, ?_, keys ?_ fun key other => (missing key other).1,
    keys ?_ fun key other => (missing key other).2, even⟩
  · unfold collect
    rw [filled]
    exact loop
  · intro j bound
    obtain ⟨s, -, load, -⟩ := even j bound
    exact ⟨s.load, load⟩
  · intro j bound
    obtain ⟨s, -, -, time⟩ := even j bound
    exact ⟨(fillTime greatest s).avgTime, time⟩

variable [Add F] [Sub F] [Mul F] [Div F]

/-- When every active node has a task and the maps have the active nodes, no `at` throws. -/
theorem balanceIno_found {activeNodes : List Bool} {state : List (OptimizerState F)}
    {measured : NodeMeasurements F} (collected : collect activeNodes state = some measured)
    (loads : ∀ i ∈ measured.nodeLoads.keys, activeNodes[i]? = some true)
    (times : ∀ i ∈ measured.nodeTimes.keys, activeNodes[i]? = some true) {oldMapping : List Nat}
    (tasks : ∀ i, activeNodes[i]? = some true → i ∈ oldMapping)
    (sortEntries : StdSort (ParetoEntry F)) (beyond : F) (canShuffle : Bool)
    (sort : StdSort (Nat × F)) (shuffle : Shuffle (F × Nat)) (oIno : InternodeOptimizer F)
    (draws : List Nat) :
    balanceIno sortEntries beyond canShuffle sort shuffle oIno activeNodes state oldMapping draws ≠
      .error .outOfRange := by
  unfold balanceIno
  rw [collected]
  dsimp only
  split
  · nofun
  · rename_i knobs oIno' _
    obtain ⟨schedule, found⟩ := InternodeOptimizer.exists_decideSchedule canShuffle sort shuffle
      (fun i key => mem_keys_nodeMap.mpr (tasks i (loads i key)))
      (fun i key => mem_keys_nodeMap.mpr (tasks i (times i key))) knobs false 1 1
    rw [found]
    nofun

/-- The optimizer sees the active nodes' own measurements only if the first node is the only active
one, or if the first and the third node are active. -/
theorem SeesOwn.ownStates {activeNodes : List Bool} {state : List (OptimizerState F)}
    (sees : SeesOwn activeNodes state) (localities : state.length = activeNodes.length) :
    OwnStates activeNodes state := by
  obtain ⟨⟨filled, measured, filled', collected, loads, times⟩, -⟩ := sees
  have nonempty : state ≠ [] := by
    rintro rfl
    exact nomatch filled'
  obtain ⟨greatest, measured', found, collected', keys, -, even⟩ := collect_spec localities nonempty
  obtain rfl : measured' = measured := Option.some.inj (collected'.symm.trans collected)
  have set (i : Nat) : activeNodes[i]? = .some true ↔
      i ≤ activeNodes.count true ∧ i % 2 = 0 := (loads.keys i).symm.trans (keys i)
  have count := count_even set
  obtain one | two : activeNodes.count true = 1 ∨ activeNodes.count true = 2 := by omega
  · refine .inl fun i => (set i).trans ?_
    omega
  · have nodes (i : Nat) : activeNodes[i]? = .some true ↔ i = 0 ∨ i = 2 := by
      rw [set i]
      omega
    obtain ⟨second, there, load, time⟩ := even 1 (by omega)
    have active := (nodes 2).mpr (.inr rfl)
    have inside : 2 < state.length := by
      rw [localities]
      exact (List.getElem?_eq_some_iff.mp active).1
    have third : state[2]? = .some state[2] := List.getElem?_eq_getElem inside
    obtain rfl : state.map (fillTime greatest) = filled := by
      obtain ⟨greatest', found', filled''⟩ := fillTimes_of_ne_nil nonempty
      obtain rfl : greatest' = greatest := Option.some.inj (found'.symm.trans found)
      exact Option.some.inj (filled''.symm.trans filled')
    have filledThird : (state.map (fillTime greatest))[2]? =
        .some (fillTime greatest state[2]) := by
      rw [List.getElem?_map, third, Option.map_some]
    have load' := loads.values 2 _ active filledThird
    have time' := times.values 2 _ active filledThird
    rw [load_fillTime] at load'
    refine .inr ⟨nodes, second, state[2], there, third,
      Option.some.inj (load.symm.trans load'), ?_⟩
    exact (fillTime_same_iff found (List.mem_of_getElem? there)
      (List.mem_of_getElem? third)).mp (Option.some.inj (time.symm.trans time'))

omit [NatCast F] [Add F] [Sub F] [Mul F] [Div F] in
/-- In these cases every active node has the same measurements as the node with half its index. -/
theorem OwnStates.half {activeNodes : List Bool} {state : List (OptimizerState F)}
    (own : OwnStates activeNodes state) :
    (∀ i, activeNodes[i]? = some true ↔ i ≤ activeNodes.count true ∧ i % 2 = 0) ∧
      ∀ i s s', activeNodes[i]? = some true → state[i]? = some s → state[i / 2]? = some s' →
        s'.load = s.load ∧ SameTime state s' s := by
  rcases own with nodes | ⟨nodes, second, third, there, there', load, time⟩
  · have set (i : Nat) : activeNodes[i]? = some true ↔ i ≤ 1 ∧ i % 2 = 0 := by
      rw [nodes i]
      omega
    have count : activeNodes.count true = 1 := count_even set
    refine ⟨count ▸ set, fun i s s' active found found' => ?_⟩
    obtain rfl := (nodes i).mp active
    obtain rfl := Option.some.inj (found.symm.trans found')
    exact ⟨rfl, .inl rfl⟩
  · have set (i : Nat) : activeNodes[i]? = some true ↔ i ≤ 2 ∧ i % 2 = 0 := by
      rw [nodes i]
      omega
    have count : activeNodes.count true = 2 := count_even set
    refine ⟨count ▸ set, fun i s s' active found found' => ?_⟩
    rcases (nodes i).mp active with rfl | rfl
    · obtain rfl := Option.some.inj (found.symm.trans found')
      exact ⟨rfl, .inl rfl⟩
    · obtain rfl := Option.some.inj (there.symm.trans found')
      obtain rfl := Option.some.inj (there'.symm.trans found)
      exact ⟨load, time⟩

/-- In these cases the optimizer sees the active nodes' own measurements. -/
theorem OwnStates.seesOwn {activeNodes : List Bool} {state : List (OptimizerState F)}
    (own : OwnStates activeNodes state) (localities : state.length = activeNodes.length) :
    SeesOwn activeNodes state := by
  obtain ⟨set, same⟩ := own.half
  have nonempty : state ≠ [] := by
    rintro rfl
    have inside := (List.getElem?_eq_some_iff.mp ((set 0).mpr ⟨Nat.zero_le _, rfl⟩)).1
    rw [← localities] at inside
    exact absurd inside (Nat.not_lt_zero _)
  obtain ⟨greatest, measured, found, collected, loads, times, even⟩ :=
    collect_spec localities nonempty
  obtain ⟨greatest', found', filled⟩ := fillTimes_of_ne_nil nonempty
  obtain rfl : greatest' = greatest := Option.some.inj (found'.symm.trans found)
  -- the values at an active node are those of the state at half its index
  have values (i : Nat) (s : OptimizerState F) (active : activeNodes[i]? = .some true)
      (there : (state.map (fillTime greatest'))[i]? = .some s) :
      measured.nodeLoads.find? i = .some s.load ∧ measured.nodeTimes.find? i = .some s.avgTime := by
    obtain ⟨bound, parity⟩ := (set i).mp active
    obtain ⟨j, rfl⟩ : ∃ j, i = 2 * j := ⟨i / 2, by omega⟩
    obtain ⟨s', at', load, time⟩ := even j bound
    rw [List.getElem?_map, Option.map_eq_some_iff] at there
    obtain ⟨s, there, rfl⟩ := there
    have half : 2 * j / 2 = j := by omega
    obtain ⟨sameLoad, sameTime⟩ := same (2 * j) s s' active there (half.symm ▸ at')
    rw [load, time, load_fillTime, sameLoad]
    exact ⟨rfl, congrArg _ ((fillTime_same_iff found (List.mem_of_getElem? at')
      (List.mem_of_getElem? there)).mpr sameTime)⟩
  have loads' (i : Nat) := (loads i).trans (set i).symm
  have times' (i : Nat) := (times i).trans (set i).symm
  exact ⟨⟨_, measured, filled, collected,
    ⟨loads', fun i s active there => (values i s active there).1⟩,
    ⟨times', fun i s active there => (values i s active there).2⟩⟩,
    fun oldMapping tasks => balanceIno_found collected (fun i => (loads' i).mp)
      (fun i => (times' i).mp) tasks⟩

/-- For every set of active nodes, as many states as localities and all mappings, the optimizer sees
the active nodes' own measurements exactly if the first node is the only active one, or if the first
and the third node are active and the second and the third one have the same measurements. -/
theorem seesOwn_iff {activeNodes : List Bool} {state : List (OptimizerState F)}
    (localities : state.length = activeNodes.length) :
    SeesOwn activeNodes state ↔ OwnStates activeNodes state :=
  ⟨fun sees => sees.ownStates localities, fun own => own.seesOwn localities⟩

/-- Three nodes, of which the second one is inactive and has the measurements of the third. -/
theorem seesOwn_three :
    let state : List (OptimizerState ℚ) := [⟨1, 1, 0⟩, ⟨2, 3, 0⟩, ⟨2, 3, 0⟩]
    SeesOwn [true, false, true] state := by
  refine (seesOwn_iff rfl).mpr (.inr ⟨fun i => ?_, _, _, rfl, rfl, rfl, .inl rfl⟩)
  match i with
  | 0 => decide
  | 1 => decide
  | 2 => decide
  | i + 3 => exact ⟨nofun, fun node => by omega⟩

/-- Two active nodes with a task each: the loads and times are those of the nodes `0` and `2`, and
`decide_schedule` does not find the second one in the mapping. -/
theorem not_seesOwn_two :
    let state : List (OptimizerState ℚ) := [⟨1, 1, 0⟩, ⟨1, 1, 0⟩]
    (collect [true, true] state).map (fun measured => measured.nodeLoads.keys) = some [0, 2] ∧
      balanceIno .insertion 0 false ⟨fun _ list => list, fun _ list => .refl list⟩
        ⟨id, fun list => .refl list⟩ (.create 2 1 2 5) [true, true] state [0, 1] [0] =
          .error .outOfRange ∧
      ¬ SeesOwn [true, true] state := by
  intro state
  have throws : balanceIno .insertion 0 false ⟨fun _ list => list, fun _ list => .refl list⟩
      ⟨id, fun list => .refl list⟩ (.create 2 1 2 5) [true, true] state [0, 1] [0] =
        .error .outOfRange := by decide +kernel
  refine ⟨by decide +kernel, throws, fun sees => ?_⟩
  refine sees.found [0, 1] (fun i active => ?_) _ _ _ _ _ _ _ throws
  match i with
  | 0 => exact List.mem_cons_self
  | 1 => exact List.mem_cons_of_mem _ List.mem_cons_self
  | i + 2 => exact nomatch active

end GlobalOptimizer

end AllScale
