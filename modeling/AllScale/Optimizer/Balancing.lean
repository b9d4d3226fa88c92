import AllScale.Lib.Run
import AllScale.Optimizer.BalanceIno
import AllScale.Optimizer.Descent
import AllScale.SchedulePolicy.Kinds
import AllScale.SchedulePolicy.Serving

/-!
# Rounds of balancing

Under the policies `balanced` and `tuned` the root lets the optimizer balance from time to time. A
round asks all localities for their states, decides on the active nodes and the frequency, and sends
both to all localities together with the task times, where every service makes a new policy from its
old one. Nothing waits for a round, so rounds may overlap, and the localities pass their services in
any order.
-/

namespace AllScale

open Transition HierarchyAddress

/-- `optimizer_state`, with the type of `task_times` as a parameter. -/
structure NodeState (F T : Type) extends OptimizerState F where
  /-- `task_times_`. -/
  taskTimes : T
  /-- `active_frequency_`. -/
  activeFrequency : Nat
  /-- `cores_per_node_`. -/
  coresPerNode : Nat

/-- `tuning_objective::score`. -/
def TuningObjective.score {F : Type} [NatCast F] [Sub F] [Mul F] (pow : F → F → F)
    (self : TuningObjective F) (speed efficiency power : F) : F :=
  pow speed self.speedExponent * pow efficiency self.efficiencyExponent *
    pow (((1 : Nat) : F) - power) self.powerExponent

/-- What balancing takes from the machine and from the standard library. -/
structure Surroundings (F T : Type) where
  /-- `get_num_localities`. -/
  numLocalities : Nat
  /-- `monitor::get_available_freqs`. -/
  freqs : List Nat
  /-- `std::sqrt`. -/
  sqrt : F → F
  /-- `std::pow`. -/
  pow : F → F → F
  /-- `task_times::get_time`. -/
  getTime : T → TaskPath → F

/-- A call of `update_policy` on a locality. -/
structure PolicyUpdate (T : Type) where
  localityId : Nat
  times : T
  mask : List Bool
  freq : Nat
  /-- The next service that is updated, when the call has arrived. -/
  layer : Nat

/-- The services of all localities, and the rounds that are under way. -/
structure Balancing (F T : Type) where
  /-- The services, by locality and layer. -/
  localities : List (List PolicyService)
  /-- `tuner_` of the root. -/
  tuner : SimpleCoordinateDescent F
  /-- `objective_` of the root. -/
  objective : TuningObjective F
  /-- The rounds that wait for the states, with their `tuned`. -/
  waiting : List Bool
  /-- The rounds that have decided, with their `times`. -/
  decided : List T
  updates : List (PolicyUpdate T)

/-- What happens. A loop is run with `fuel`. -/
inductive BalancingAction (F T : Type) where
  /-- A root task is scheduled, and the root balances. -/
  | balance
  /-- The states of all localities have come. -/
  | decide (round : Nat) (state : List (NodeState F T)) (fuel : Nat)
  /-- The decision is broadcast. -/
  | send (round : Nat)
  /-- A call of `update_policy` goes on. -/
  | update (call fuel : Nat)

namespace Balancing

variable {F T : Type}

/-- A service of the network. -/
def service (self : Balancing F T) (here : HierarchyAddress) : Option PolicyService := do
  let services ← self.localities[here.rank]?
  services[here.layer]?

/-- The services with another one in the place of one of them. -/
def setService (self : Balancing F T) (here : HierarchyAddress) (service : PolicyService) :
    Balancing F T :=
  { self with localities := self.localities.modify here.rank (·.set here.layer service) }

section Code

variable [NatCast F] [Add F] [Sub F] [Mul F] [Div F] [OfScientific F] [LT F] [DecidableLT F]

/-- `avg_load`. -/
def averageLoad (state : List (NodeState F T)) (numActiveNodes : Nat) : F :=
  state.foldl (fun avgLoad s => avgLoad + s.load) ((0 : Nat) : F) / (numActiveNodes : F)

/-- `var` in `global_optimizer::balance`. -/
def loadVariance (state : List (NodeState F T)) (numActiveNodes : Nat) (avgLoad : F) :
    Option F := do
  let sumDist ← (List.range numActiveNodes).foldlM (fun sumDist i => do
    let s ← state[i]?
    let dist := s.load - avgLoad
    return sumDist + dist * dist) ((0 : Nat) : F)
  return if numActiveNodes > 1 then sumDist / ((numActiveNodes - 1 : Nat) : F) else ((0 : Nat) : F)

/-- `monitor::get_max_freq`. -/
def maxFreq (freqs : List Nat) : Nat := max (freqs.getLastD 0) (freqs.headD 0)

/-- The sums over the nodes in `global_optimizer::tune`: `total_speed`, `total_efficiency` and
`used_power`. -/
def totals (freqs : List Nat) (state : List (NodeState F T)) (activeNodes : List Bool) :
    Option (F × F × F) :=
  (List.range activeNodes.length).foldlM (fun (speed, efficiency, power) i =>
    if i < activeNodes.count true then do
      let s ← state[i]?
      let active : Nat := s.activeFrequency * s.coresPerNode % 2 ^ 64
      let most : Nat := maxFreq freqs * s.coresPerNode % 2 ^ 64
      return (speed + s.load, efficiency + s.load * ((active : F) / (most : F)),
        power + (s.energy : F))
    else some (speed, efficiency, power))
    (((0 : Nat) : F), ((0 : Nat) : F), ((0 : Nat) : F))

variable [BEq F] [One F] [Neg F]

/-- `global_optimizer::tune`, for the optimizer of the root, where the power is not estimated. -/
def tune (surroundings : Surroundings F T) (self : Balancing F T) (root : PolicyService)
    (state : List (NodeState F T)) (fuel : Nat) : Option (Balancing F T) := do
  let ⟨activeNodes, activeFrequency⟩ := root.optimizer
  let (totalSpeed, totalEfficiency, usedPower) ← totals surroundings.freqs state activeNodes
  let maxPower := ((0 : Nat) : F)
  let score := self.objective.score surroundings.pow
    (totalSpeed / (activeNodes.length : F)) (totalEfficiency / (activeNodes.length : F))
    (usedPower / maxPower)
  let (nextCfg, tuner) ← self.tuner.next surroundings.freqs ⟨activeNodes, activeFrequency⟩ score
    self.objective fuel
  let root := { root with optimizer := ⟨nextCfg.nodeMask, nextCfg.frequency⟩ }
  return { self.setService (getRootOfNetworkSize surroundings.numLocalities) root with
    tuner := tuner }

variable [Zero T] [Add T]

/-- The continuation of `global_optimizer::balance`, up to its broadcast. -/
def decide (surroundings : Surroundings F T) (self : Balancing F T) (tuned : Bool)
    (state : List (NodeState F T)) (fuel : Nat) : Option (Balancing F T) := do
  let root ← self.service (getRootOfNetworkSize surroundings.numLocalities)
  let numActiveNodes := root.optimizer.activeNodes.count true
  let times := state.foldl (fun times s => times + s.taskTimes) 0
  let var ← loadVariance state numActiveNodes (averageLoad state numActiveNodes)
  let self ← if tuned ∧ var < 0.01 then self.tune surroundings root state fuel else some self
  return { self with decided := self.decided ++ [times] }

/-- The next step of a call of `update_policy`: the next service, or the end. -/
def proceed (surroundings : Surroundings F T) (self : Balancing F T) (call : Nat)
    (update : PolicyUpdate T) (fuel : Nat) : Option (Balancing F T) := do
  let services ← self.localities[update.localityId]?
  match services[update.layer]? with
  | some service =>
    match service.updatePolicy surroundings.sqrt (surroundings.getTime update.times) update.mask
      update.freq fuel with
    | .ok after =>
      some { self.setService ⟨update.localityId, update.layer⟩ after with
        updates := self.updates.set call { update with layer := update.layer + 1 } }
    | .error _ => none
  | none => some { self with updates := self.updates.eraseIdx call }

/-- One action. -/
def step (surroundings : Surroundings F T) (self : Balancing F T) :
    BalancingAction F T → Option (Balancing F T)
  | .balance => do
    let root ← self.service (getRootOfNetworkSize surroundings.numLocalities)
    match root.balance 0 with
    | .ok (some (.balance tuned)) => some { self with waiting := self.waiting ++ [tuned] }
    | .ok none => some self
    | _ => none
  | .decide round state fuel => do
    let tuned ← self.waiting[round]?
    if state.length = self.localities.length then
      decide surroundings { self with waiting := self.waiting.eraseIdx round } tuned state fuel
    else none
  | .send round => do
    let times ← self.decided[round]?
    let root ← self.service (getRootOfNetworkSize surroundings.numLocalities)
    let ⟨mask, freq⟩ := root.optimizer
    return { self with
      decided := self.decided.eraseIdx round
      updates := self.updates ++ (List.range self.localities.length).map fun localityId =>
        ⟨localityId, times, mask, freq, 0⟩ }
  | .update call fuel => do
    let update ← self.updates[call]?
    proceed surroundings self call update fuel

/-- The runs from a start. -/
def balancing (surroundings : Surroundings F T) (start : Balancing F T) :
    System (Balancing F T) (BalancingAction F T) where
  start := start
  step := fun self action self' => step surroundings self action = some self'

end Code

/-- The services when they have started, all in the same environment, and the optimizer of the root
with what was in the memory of `best_score`; `frequency` is what was in the memory of
`active_frequency_`, and `current` is the current frequency of the root. -/
def create (numLocalities : Nat) (env : Option String) (frequency : HierarchyAddress → Nat)
    (current : Nat) (objective : TuningObjective F) (memory : F) :
    Except Fault (Balancing F T) := do
  let localities ← (List.range numLocalities).mapM fun localityId =>
    (List.range (getLayersOn localityId numLocalities)).mapM fun layer =>
      PolicyService.create numLocalities env
        (⟨localityId, layer⟩ = getRootOfNetworkSize numLocalities) (frequency ⟨localityId, layer⟩)
  let best := ⟨List.replicate numLocalities true, current⟩
  return ⟨localities, .create best objective memory, objective, [], [], []⟩

/-! ## Configurations -/

/-- The active nodes of a configuration that the optimizer may choose. -/
structure Fits (surroundings : Surroundings F T) (mask : List Bool) : Prop where
  length : mask.length = surroundings.numLocalities
  /-- The active nodes come first. -/
  leading : TreeSchedulingPolicy.Leading mask
  active : true ∈ mask

/-- When a node more is activated, the active nodes still come first. -/
theorem leading_activate {mask : List Bool} (leading : TreeSchedulingPolicy.Leading mask) :
    TreeSchedulingPolicy.Leading (TunerConfiguration.activate mask) := by
  induction mask with
  | nil => exact leading
  | cons node mask ih =>
    obtain ⟨first, rest⟩ := List.pairwise_cons.mp leading
    cases node with
    | false => exact List.pairwise_cons.mpr ⟨fun _ _ _ => rfl, rest⟩
    | true => exact List.pairwise_cons.mpr ⟨fun _ _ _ => rfl, ih rest⟩

/-- When the last active node is deactivated, the active nodes still come first. -/
theorem leading_deactivate {mask : List Bool} (leading : TreeSchedulingPolicy.Leading mask) :
    TreeSchedulingPolicy.Leading (TunerConfiguration.deactivate mask.reverse).reverse := by
  have turned : mask.reverse.Pairwise fun later earlier => later = true → earlier = true :=
    List.pairwise_reverse.mpr leading
  apply List.pairwise_reverse.mpr
  generalize mask.reverse = nodes at turned ⊢
  induction nodes with
  | nil => exact turned
  | cons node nodes ih =>
    obtain ⟨last, rest⟩ := List.pairwise_cons.mp turned
    cases node with
    | true => exact List.pairwise_cons.mpr ⟨fun _ _ inactive => Bool.noConfusion inactive, rest⟩
    | false =>
      exact List.pairwise_cons.mpr ⟨fun _ _ inactive => Bool.noConfusion inactive, ih rest⟩

/-- The neighbours of a configuration whose active nodes come first have this property. -/
theorem leading_neighbour {freqs : List Nat} {cfg res : TunerConfiguration} {dim : Dimension}
    {dir : Direction} (leading : TreeSchedulingPolicy.Leading cfg.nodeMask)
    (found : cfg.neighbour freqs dim dir = some (some res)) :
    TreeSchedulingPolicy.Leading res.nodeMask := by
  cases dim with
  | numNodes =>
    cases dir with
    | up =>
      obtain ⟨mask, returned, rfl⟩ := Option.map_eq_some_iff.mp (Option.some.inj found)
      unfold TunerConfiguration.incMask at returned
      split at returned
      · cases returned
      · cases returned
        exact leading_activate leading
    | down =>
      obtain ⟨mask, returned, rfl⟩ := Option.map_eq_some_iff.mp (Option.some.inj found)
      unfold TunerConfiguration.decMask at returned
      split at returned
      · cases returned
      · cases returned
        exact leading_deactivate leading
  | frequency =>
    cases dir with
    | up =>
      obtain ⟨next, -, same⟩ := Option.map_eq_some_iff.mp found
      obtain ⟨freq, -, rfl⟩ := Option.map_eq_some_iff.mp same
      exact leading
    | down =>
      obtain ⟨next, -, same⟩ := Option.map_eq_some_iff.mp found
      obtain ⟨freq, -, rfl⟩ := Option.map_eq_some_iff.mp same
      exact leading

/-- A usable configuration passes the assertion of `next` where there is more than one node or more
than one frequency. -/
theorem hasSpace_of_several {freqs : List Nat} {cfg : TunerConfiguration}
    (usable : cfg.Usable freqs) (several : 2 ≤ cfg.nodeMask.length ∨ 2 ≤ freqs.length) :
    cfg.hasSpace freqs = some true := by
  obtain ⟨before, after, list, inc, dec⟩ := usable.frequencies
  unfold TunerConfiguration.hasSpace
  split
  · rfl
  rename_i settled
  have single : cfg.nodeMask.length < 2 := by
    by_contra nodes
    refine settled ?_
    unfold TunerConfiguration.incMask TunerConfiguration.decMask
    by_cases all : cfg.nodeMask.count true = cfg.nodeMask.length
    · rw [if_neg (by omega : ¬ cfg.nodeMask.count true = 1)]
      simp
    · rw [if_neg all]
      simp
  have entries : 2 ≤ freqs.length := several.resolve_left (by omega)
  rw [list, List.length_append, List.length_cons] at entries
  rw [inc, dec]
  cases after with
  | cons freq after => rfl
  | nil =>
    have earlier : before.getLast? ≠ none := by
      rw [Ne, List.getLast?_eq_none_iff]
      rintro rfl
      simp at entries
    obtain ⟨freq, last⟩ := Option.ne_none_iff_exists'.mp earlier
    simp [last]

variable {surroundings : Surroundings F T} {value : PolicyValue}

section Tuner

variable [LT F] [DecidableLT F] [BEq F] [One F] [Neg F]

/-- What the tuner remembers fits. -/
theorem fits_remembered {tuner : SimpleCoordinateDescent F} {cfg : TunerConfiguration}
    (best : Fits surroundings tuner.best.nodeMask) (fits : Fits surroundings cfg.nodeMask)
    (score : F) (objective : TuningObjective F) :
    Fits surroundings (tuner.remembered cfg score objective).nodeMask :=
  SimpleCoordinateDescent.remembered_of (P := fun cfg => Fits surroundings cfg.nodeMask) best fits
    score objective

/-- What the tuner remembers has an available frequency. -/
theorem available_remembered {tuner : SimpleCoordinateDescent F} {cfg : TunerConfiguration}
    (best : tuner.best.frequency ∈ surroundings.freqs)
    (available : cfg.frequency ∈ surroundings.freqs) (score : F) (objective : TuningObjective F) :
    (tuner.remembered cfg score objective).frequency ∈ surroundings.freqs :=
  SimpleCoordinateDescent.remembered_of (P := fun cfg => cfg.frequency ∈ surroundings.freqs) best
    available score objective

/-- The tuner chooses a configuration next to the one that it remembers. -/
theorem adjacent_next {tuner tuner' : SimpleCoordinateDescent F} {cfg res : TunerConfiguration}
    {score : F} {objective : TuningObjective F} {fuel : Nat}
    (best : Fits surroundings tuner.best.nodeMask) (fits : Fits surroundings cfg.nodeMask)
    (returned : tuner.next surroundings.freqs cfg score objective fuel = some (res, tuner')) :
    tuner'.best = tuner.remembered cfg score objective ∧
      tuner'.best.Adjacent surroundings.freqs res ∧ Fits surroundings res.nodeMask := by
  have remembered := fits_remembered best fits score objective
  have searched := SimpleCoordinateDescent.search_of_next returned
  have kept : tuner'.best = tuner.remembered cfg score objective :=
    (SimpleCoordinateDescent.search_keeps searched).1
  obtain ⟨dim, dir, found⟩ := SimpleCoordinateDescent.search_neighbour searched
  obtain ⟨adjacent, active⟩ := TunerConfiguration.neighbour_spec remembered.active found
  rw [kept]
  exact ⟨rfl, adjacent, adjacent.length_eq.trans remembered.length,
    leading_neighbour remembered.leading found, active⟩

/-- The tuner chooses something when there is more than one configuration and the frequencies are
available. -/
theorem exists_next {tuner : SimpleCoordinateDescent F} (cfg : TunerConfiguration)
    (best : Fits surroundings tuner.best.nodeMask) (fits : Fits surroundings cfg.nodeMask)
    (bestAvailable : tuner.best.frequency ∈ surroundings.freqs)
    (available : cfg.frequency ∈ surroundings.freqs)
    (several : 2 ≤ surroundings.numLocalities ∨ 2 ≤ surroundings.freqs.length) (score : F)
    (objective : TuningObjective F) :
    ∃ result, tuner.next surroundings.freqs cfg score objective 4 = some result := by
  have remembered := fits_remembered best fits score objective
  have usable : (tuner.remembered cfg score objective).Usable surroundings.freqs :=
    ⟨remembered.active, available_remembered bestAvailable available score objective⟩
  have space : cfg.hasSpace surroundings.freqs = some true :=
    hasSpace_of_several ⟨fits.active, available⟩ (by rwa [fits.length])
  rw [SimpleCoordinateDescent.next_eq space]
  exact SimpleCoordinateDescent.exists_search usable.neighbour_ne_none
    (usable.exists_neighbour (by rwa [remembered.length])) _

end Tuner

/-! ## Services -/

variable {self self' : Balancing F T} {here there : HierarchyAddress}
  {old new : PolicyService}

/-- A service that is set is there. -/
theorem service_setService_self (found : self.service here = some old) :
    (self.setService here new).service here = some new := by
  simp only [service, Option.bind_eq_bind, Option.bind_eq_some_iff] at found
  obtain ⟨services, locality, layer⟩ := found
  simp only [service, setService, List.getElem?_modify_eq, locality, Option.map_eq_map,
    Option.map_some, Option.bind_eq_bind, Option.bind_some]
  exact List.getElem?_set_self (List.getElem?_eq_some_iff.mp layer).1

/-- The other services stay. -/
theorem service_setService_ne (other : there ≠ here) :
    (self.setService here new).service there = self.service there := by
  obtain ⟨rank, layer⟩ := here
  obtain ⟨rank', layer'⟩ := there
  simp only [service, setService, Option.bind_eq_bind]
  by_cases same : rank = rank'
  · subst same
    have layers : layer ≠ layer' := by
      rintro rfl
      exact other rfl
    rw [List.getElem?_modify_eq]
    cases self.localities[rank]? with
    | none => rfl
    | some services => exact List.getElem?_set_ne layers
  · rw [List.getElem?_modify_ne _ _ same]

/-- A service after one of them has been set is this one or was there. -/
theorem service_setService {service : PolicyService} (set : self.service here = some old)
    (found : (self.setService here new).service there = some service) :
    there = here ∧ service = new ∨ there ≠ here ∧ self.service there = some service := by
  by_cases same : there = here
  · subst same
    rw [service_setService_self set] at found
    exact .inl ⟨rfl, (Option.some.inj found).symm⟩
  · rw [service_setService_ne same] at found
    exact .inr ⟨same, found⟩

/-! ## Policies -/

/-- A policy that is balanced: it has its name and serves all nodes. -/
def Good (surroundings : Surroundings F T) (value : PolicyValue) (policy : ReplacablePolicy) :
    Prop :=
  policy.value = value ∧ ∃ tree mapping, policy.policy = .tree tree ∧
    tree.Serves surroundings.numLocalities mapping ∧
    tree.granularity = max (ceilLog2 surroundings.numLocalities + 3) 5

/-- The root lets the optimizer balance, and tune under the policy `tuned`. -/
theorem balance_eq {service : PolicyService} (isRoot : service.isRoot = true)
    (balanced : service.policy.value = .dynamic ∨ service.policy.value = .tuned) (fuel : Nat) :
    service.balance fuel =
      .ok (some (.balance (Decidable.decide (service.policy.value = .tuned)))) := by
  unfold PolicyService.balance
  rw [if_neg (not_not.mpr isRoot)]
  rcases balanced with dynamic | tuned
  · rw [dynamic]
    rfl
  · rw [tuned]
    rfl

section Update

variable [NatCast F] [Add F] [Sub F] [Mul F] [Div F] [OfScientific F] [LT F] [DecidableLT F]

/-- What is assumed of the numbers and the network. -/
structure Assumed (surroundings : Surroundings F T) (value : PolicyValue) : Prop where
  nodes : 0 < surroundings.numLocalities
  /-- The tasks of a policy are counted in 64 bits. -/
  small : max (ceilLog2 surroundings.numLocalities + 3) 5 < 64
  undefined : TreeSchedulingPolicy.UndefinedAverage F
  margins : TreeSchedulingPolicy.MarginNotNegative surroundings.sqrt
  balanced : value = .dynamic ∨ value = .tuned

/-- `update_policy` makes a good policy from a good one, the same one for all services, and
replaces the configuration. -/
theorem Good.exists_updatePolicy (assumed : Assumed surroundings value)
    {policy : ReplacablePolicy} (good : Good surroundings value policy) {mask : List Bool}
    (fits : Fits surroundings mask) (freq : Nat) (times : T) :
    ∃ next, Good surroundings value next ∧
      ∀ service : PolicyService, service.policy = policy →
        (∃ fuel, service.updatePolicy surroundings.sqrt (surroundings.getTime times) mask freq
          fuel = .ok ⟨next, service.isRoot, mask, freq⟩) ∧
        ∀ fuel after, service.updatePolicy surroundings.sqrt (surroundings.getTime times) mask freq
          fuel = .ok after → after = ⟨next, service.isRoot, mask, freq⟩ := by
  obtain ⟨name, tree, mapping, isTree, serves, granularity⟩ := good
  have nodes := assumed.nodes
  rw [← fits.length] at serves nodes
  have power : 2 ^ tree.granularity < 2 ^ 64 := by
    rw [granularity]
    exact Nat.pow_lt_pow_right (by decide) assumed.small
  obtain ⟨tree', mapping', serves', granularity', enough, only⟩ :=
    serves.exists_createRebalanced assumed.undefined assumed.margins (surroundings.getTime times)
      nodes power
  have named : policy.value = .dynamic ∨ policy.value = .tuned := by
    rw [name]
    exact assumed.balanced
  refine ⟨{ policy with policy := .tree tree' }, ⟨name, tree', mapping', rfl, ?_,
    granularity'.trans granularity⟩, ?_⟩
  · rwa [← fits.length]
  rintro service rfl
  have updates (fuel : Nat) : service.updatePolicy surroundings.sqrt (surroundings.getTime times)
      mask freq fuel = (Fault.defined (TreeSchedulingPolicy.createRebalanced surroundings.sqrt tree
        (surroundings.getTime times) mask fuel)).bind fun rebalanced =>
          .ok ⟨{ service.policy with policy := .tree rebalanced }, service.isRoot, mask, freq⟩ := by
    unfold PolicyService.updatePolicy
    rw [if_neg (not_not.mpr named), isTree]
    change ((Fault.defined (TreeSchedulingPolicy.createRebalanced surroundings.sqrt tree
      (surroundings.getTime times) mask fuel)).bind fun rebalanced =>
        .ok (SchedulingPolicy.tree rebalanced)).bind _ = _
    cases TreeSchedulingPolicy.createRebalanced surroundings.sqrt tree
      (surroundings.getTime times) mask fuel <;> rfl
  refine ⟨⟨tree.granularity + height mask.length + 1, ?_⟩, fun fuel after updated => ?_⟩
  · rw [updates, enough _ (Nat.lt_succ_self _)]
    rfl
  · rw [updates] at updated
    cases rebalanced : TreeSchedulingPolicy.createRebalanced surroundings.sqrt tree
        (surroundings.getTime times) mask fuel with
    | none =>
      rw [rebalanced] at updated
      cases updated
    | some other =>
      rw [rebalanced, only fuel other rebalanced] at updated
      cases updated
      rfl

end Update

end Balancing

end AllScale
