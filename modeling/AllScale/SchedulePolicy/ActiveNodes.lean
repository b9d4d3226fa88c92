import AllScale.SchedulePolicy.Kinds

/-!
# Active nodes under commands

The dashboard switches nodes on and off, one at a time, and every switch rebuilds the uniform
policy from the nodes that are active then. Nothing keeps the last active node from being switched
off: with assertions `create_uniform` stops there, without them the tasks are divided by zero.
-/

namespace AllScale

open Transition

/-- Why a command does not return. -/
inductive Stop where
  /-- A uniform policy is rebuilt from no active node. With assertions the check in
  `create_uniform` fails, without them the division in `getEqualDistribution`. -/
  | noActiveNode
  /-- Another assertion fails. -/
  | assertion
  /-- An access outside of the active nodes. -/
  | outOfRange
  deriving DecidableEq

/-! ## Uniform policies in builds with and without assertions -/

namespace TreeSchedulingPolicy

/-- `getEqualDistribution` — the division by the number of active nodes comes before the check that
every task has been given to a node. -/
def equalDistribution (asserts : Bool) (mask : List Bool) (numTasks : Nat) :
    Except Stop (List Nat) :=
  if mask.count true = 0 then .error .noActiveNode
  else match getEqualDistribution mask numTasks with
    | some mapping => .ok mapping
    | none =>
      if asserts then .error .assertion
      else .ok (getEqualDistributionUnchecked mask numTasks)

/-- `tree_scheduling_policy::create_uniform` for the nodes of a mask. -/
def createUniformIn (asserts : Bool) (mask : List Bool) (granularity : Nat) :
    Except Stop TreeSchedulingPolicy :=
  if asserts ∧ mask.count true = 0 then .error .noActiveNode
  else do
    let log2 := ceilLog2 mask.length
    let levels := max log2 granularity
    let numTasks := 1 <<< levels
    let mapping ← equalDistribution asserts mask numTasks
    match toDecisionTree (1 <<< log2) mapping with
    | some tree => return ⟨HierarchyAddress.getRootOfNetworkSize mask.length, levels, tree⟩
    | none => throw .assertion

/-- Without an active node no policy is built, in either build. -/
theorem createUniformIn_of_not_mem {asserts : Bool} {mask : List Bool} (inactive : true ∉ mask)
    (granularity : Nat) : createUniformIn asserts mask granularity = .error .noActiveNode := by
  have count : mask.count true = 0 := List.count_eq_zero.mpr inactive
  have divides (numTasks : Nat) : equalDistribution asserts mask numTasks = .error .noActiveNode :=
    if_pos count
  unfold createUniformIn
  split
  · rfl
  · simp only [divides]
    rfl

/-- With an active node the division is defined. -/
theorem createUniformIn_of_mem {asserts : Bool} {mask : List Bool} (active : true ∈ mask)
    (granularity : Nat) :
    Ensures (· ≠ .noActiveNode) (fun _ => True) (createUniformIn asserts mask granularity) := by
  have count : mask.count true ≠ 0 := fun zero => List.count_eq_zero.mp zero active
  have distributes (numTasks : Nat) :
      Ensures (· ≠ .noActiveNode) (fun _ => True) (equalDistribution asserts mask numTasks) := by
    unfold equalDistribution
    rw [if_neg count]
    split
    · trivial
    · exact .ite (fun _ => .throw (by decide)) fun _ => trivial
  unfold createUniformIn
  rw [if_neg fun both => count both.2]
  refine (distributes _).bind fun mapping _ => ?_
  split
  · trivial
  · exact .throw (by decide)

/-- A policy that `create_uniform` returns is built with and without assertions. -/
theorem createUniformIn_of_some {asserts : Bool} {mask : List Bool} {granularity : Nat}
    {policy : TreeSchedulingPolicy} (made : createUniformMask mask granularity = some policy) :
    createUniformIn asserts mask granularity = .ok policy := by
  unfold createUniformMask at made
  split at made
  · cases made
  · rename_i count
    simp only [Option.bind_eq_bind, Option.bind_eq_some_iff] at made
    obtain ⟨mapping, given, tree, built, same⟩ := made
    cases same
    unfold createUniformIn equalDistribution
    rw [if_neg fun both => count both.2]
    simp only [if_neg count, given, bind, Except.bind, built]
    rfl

/-- With assertions, a policy is built exactly where `create_uniform` returns one. -/
theorem createUniformIn_true (mask : List Bool) (granularity : Nat) :
    (createUniformIn true mask granularity).toOption = createUniformMask mask granularity := by
  unfold createUniformIn createUniformMask equalDistribution
  by_cases count : mask.count true = 0
  · rw [if_pos ⟨rfl, count⟩, if_pos count]
    rfl
  · rw [if_neg fun both => count both.2, if_neg count]
    simp only [if_neg count]
    cases getEqualDistribution mask (1 <<< max (ceilLog2 mask.length) granularity) with
    | none => rfl
    | some mapping =>
      simp only [Option.bind_eq_bind, Option.bind_some]
      cases built : toDecisionTree (1 <<< ceilLog2 mask.length) mapping with
      | none =>
        simp only [bind, Except.bind, built]
        rfl
      | some tree =>
        simp only [bind, Except.bind, built]
        rfl

end TreeSchedulingPolicy

/-- `tree_scheduling_policy::create_uniform` for the active nodes, at the default granularity. -/
def SchedulingPolicy.createUniformIn (asserts : Bool) (mask : List Bool) :
    Except Stop SchedulingPolicy := do
  let granularity := max (ceilLog2 mask.length + 3) 5
  return .tree (← TreeSchedulingPolicy.createUniformIn asserts mask granularity)

/-- With an active node a uniform policy is built without a division by zero. -/
theorem SchedulingPolicy.ensures_createUniformIn {asserts : Bool} {mask : List Bool}
    (active : true ∈ mask) :
    Ensures (· ≠ .noActiveNode) (fun _ => True) (createUniformIn asserts mask) :=
  (TreeSchedulingPolicy.createUniformIn_of_mem active _).bind fun _ _ => trivial

/-- `create_policy`. -/
def createPolicyIn (asserts : Bool) (numLocalities : Nat) (policy : String) :
    Except Stop ReplacablePolicy := do
  let uniform := SchedulingPolicy.createUniformIn asserts (List.replicate numLocalities true)
  if policy = "uniform" then return ⟨.static, ← uniform⟩
  if policy = "balanced" then return ⟨.dynamic, ← uniform⟩
  if policy = "tuned" then return ⟨.tuned, ← uniform⟩
  if policy = "ino" then return ⟨.ino, ← uniform⟩
  if policy = "random" then return ⟨.random, SchedulingPolicy.createRandom numLocalities⟩
  return ⟨.static, ← uniform⟩

/-- `create_policy` for the environment variable, when it is set. -/
def createPolicyOfEnvIn (asserts : Bool) (numLocalities : Nat) (env : Option String) :
    Except Stop ReplacablePolicy :=
  match env with
  | some env => createPolicyIn asserts numLocalities env
  | none => createPolicyIn asserts numLocalities "uniform"

namespace PolicyService

/-! ## Commands -/

/-- The constructor of `scheduler_service`; the frequency of the optimizer is not initialised. -/
def createIn (asserts : Bool) (numLocalities : Nat) (env : Option String) (isRoot : Bool)
    (frequency : Nat) : Except Stop PolicyService := do
  let policy ← createPolicyOfEnvIn asserts numLocalities env
  return ⟨policy, isRoot, List.replicate numLocalities true, frequency⟩

/-- `scheduler_service::toggle_node`. -/
def toggleNodeIn (asserts : Bool) (self : PolicyService) (localityId : Nat) :
    Except Stop PolicyService :=
  if localityId ≥ self.optimizer.activeNodes.length then .error .outOfRange
  else do
    let optimizer := { self.optimizer with
      activeNodes := self.optimizer.activeNodes.modify localityId not }
    let policy ← SchedulingPolicy.createUniformIn asserts optimizer.activeNodes
    if self.policy.value = .random then
      return { self with optimizer := optimizer, policy := ⟨.static, policy⟩ }
    else
      return { self with optimizer := optimizer, policy := { self.policy with policy := policy } }

/-- `scheduler_service::set_policy`. -/
def setPolicyIn (asserts : Bool) (numLocalities : Nat) (self : PolicyService) (policy : String) :
    Except Stop PolicyService := do
  let pol ← createPolicyIn asserts numLocalities policy
  let activeNodes := List.replicate self.optimizer.activeNodes.length true
  return { self with
    policy := pol
    optimizer := { self.optimizer with activeNodes := activeNodes } }

/-- With assertions, switching a node returns exactly where the handler without a reason for
failures does. -/
theorem toOption_toggleNodeIn (self : PolicyService) (localityId : Nat) :
    (self.toggleNodeIn true localityId).toOption = (self.toggleNode localityId).toOption := by
  have sequence {ε α β : Type} (first : Except ε α) (next : α → Except ε β) :
      (first >>= next).toOption = first.toOption.bind fun value => (next value).toOption := by
    cases first <;> rfl
  have defined {α : Type} (value : Option α) : (Fault.defined value).toOption = value := by
    cases value <;> rfl
  have rebuilt (mask : List Bool) : (SchedulingPolicy.createUniformIn true mask).toOption =
      (SchedulingPolicy.createUniform mask).toOption := by
    unfold SchedulingPolicy.createUniformIn SchedulingPolicy.createUniform
    simp only [sequence, defined, TreeSchedulingPolicy.createUniformIn_true]
    rfl
  unfold toggleNodeIn toggleNode
  by_cases outside : localityId ≥ self.optimizer.activeNodes.length
  · rw [if_pos outside, if_pos outside]
    rfl
  · rw [if_neg outside, if_neg outside]
    simp only [sequence, rebuilt]
    by_cases random : self.policy.value = .random
    · simp only [if_pos random]
      rfl
    · simp only [if_neg random]
      rfl

/-- The commands of the dashboard that name nodes or policies. -/
inductive Command where
  /-- `toggle_node`. -/
  | toggleNode (localityId : Nat)
  /-- `set_scheduler`. -/
  | setPolicy (policy : String)

/-- The handler of a command. -/
def execute (asserts : Bool) (numLocalities : Nat) (self : PolicyService) :
    Command → Except Stop PolicyService
  | .toggleNode localityId => self.toggleNodeIn asserts localityId
  | .setPolicy policy => self.setPolicyIn asserts numLocalities policy

/-- The steps of a locality under commands, until one does not return. -/
inductive Executes (asserts : Bool) (numLocalities : Nat) :
    Except Stop PolicyService → Command → Except Stop PolicyService → Prop
  | execute {self : PolicyService} {command : Command} :
      Executes asserts numLocalities (.ok self) command (self.execute asserts numLocalities command)

/-- A locality that starts with the policy of the environment and receives commands. -/
def dashboard (asserts : Bool) (numLocalities : Nat) (env : Option String) (isRoot : Bool)
    (frequency : Nat) : System (Except Stop PolicyService) Command where
  start := createIn asserts numLocalities env isRoot frequency
  step := Executes asserts numLocalities

/-- A uniform policy has never been rebuilt from no active node, and some node is active. -/
def Populated : Except Stop PolicyService → Prop :=
  Ensures (· ≠ .noActiveNode) fun self => true ∈ self.optimizer.activeNodes

/-- A command does not switch off the only active node. -/
def Command.LeavesActive (state : Except Stop PolicyService) : Command → Prop
  | .toggleNode localityId => ∀ self, state = .ok self →
      self.optimizer.activeNodes[localityId]? = some true →
        ∃ other, other ≠ localityId ∧ self.optimizer.activeNodes[other]? = some true
  | .setPolicy _ => True

/-! ## Handlers -/

/-- After a switch some node is active unless the only active one has been switched off. -/
theorem mem_modify_not {mask : List Bool} {localityId : Nat} (inside : localityId < mask.length) :
    true ∈ mask.modify localityId not ↔
      (mask[localityId]? = some true → ∃ other, other ≠ localityId ∧ mask[other]? = some true) := by
  have here : (mask.modify localityId not)[localityId]? = mask[localityId]?.map not :=
    List.getElem?_modify_eq _ _ _
  have elsewhere {other : Nat} (different : other ≠ localityId) :
      (mask.modify localityId not)[other]? = mask[other]? :=
    List.getElem?_modify_ne _ _ different.symm
  rw [List.mem_iff_getElem?]
  constructor
  · rintro ⟨other, active⟩ switched
    by_cases same : other = localityId
    · rw [same, here, switched] at active
      cases active
    · exact ⟨other, same, (elsewhere same).symm.trans active⟩
  · intro leaves
    by_cases switched : mask[localityId]? = some true
    · obtain ⟨other, different, active⟩ := leaves switched
      exact ⟨other, (elsewhere different).trans active⟩
    · refine ⟨localityId, ?_⟩
      rw [List.getElem?_eq_getElem inside, Option.some.injEq, Bool.not_eq_true] at switched
      rw [here, List.getElem?_eq_getElem inside, switched]
      rfl

variable {asserts : Bool} {numLocalities : Nat}

/-- Where all nodes are active a policy is chosen without a division by zero. -/
theorem ensures_createPolicyIn (nodes : 0 < numLocalities) (policy : String) :
    Ensures (· ≠ .noActiveNode) (fun _ => True) (createPolicyIn asserts numLocalities policy) := by
  have active : true ∈ List.replicate numLocalities true :=
    List.mem_replicate.mpr ⟨Nat.ne_of_gt nodes, rfl⟩
  have uniform (value : PolicyValue) : Ensures (· ≠ Stop.noActiveNode) (fun _ => True) (do
      return (⟨value, ← SchedulingPolicy.createUniformIn asserts
        (List.replicate numLocalities true)⟩ : ReplacablePolicy)) :=
    (SchedulingPolicy.ensures_createUniformIn active).bind fun _ _ => trivial
  unfold createPolicyIn
  apply Ensures.ite (fun _ => uniform _) fun _ => ?_
  apply Ensures.ite (fun _ => uniform _) fun _ => ?_
  apply Ensures.ite (fun _ => uniform _) fun _ => ?_
  apply Ensures.ite (fun _ => uniform _) fun _ => ?_
  exact .ite (fun _ => trivial) fun _ => uniform _

/-- At the start all nodes are active. -/
theorem populated_createIn (nodes : 0 < numLocalities) (env : Option String) (isRoot : Bool)
    (frequency : Nat) : Populated (createIn asserts numLocalities env isRoot frequency) := by
  have chosen : Ensures (· ≠ .noActiveNode) (fun _ => True)
      (createPolicyOfEnvIn asserts numLocalities env) := by
    cases env with
    | some env => exact ensures_createPolicyIn nodes env
    | none => exact ensures_createPolicyIn nodes "uniform"
  exact chosen.bind fun _ _ => List.mem_replicate.mpr ⟨Nat.ne_of_gt nodes, rfl⟩

/-- A new policy activates all nodes. -/
theorem populated_setPolicyIn (nodes : 0 < numLocalities) {self : PolicyService}
    (populated : true ∈ self.optimizer.activeNodes) (policy : String) :
    Populated (self.setPolicyIn asserts numLocalities policy) :=
  (ensures_createPolicyIn nodes policy).bind fun _ _ =>
    List.mem_replicate.mpr ⟨Nat.ne_of_gt (List.length_pos_of_mem populated), rfl⟩

/-- Switching a node rebuilds the policy from active nodes exactly if it does not switch off the
only one. -/
theorem populated_toggleNodeIn_iff (self : PolicyService) (localityId : Nat) :
    Populated (self.toggleNodeIn asserts localityId) ↔
      (Command.toggleNode localityId).LeavesActive (.ok self) := by
  have leaves_iff : (Command.toggleNode localityId).LeavesActive (.ok self) ↔
      (self.optimizer.activeNodes[localityId]? = some true →
        ∃ other, other ≠ localityId ∧ self.optimizer.activeNodes[other]? = some true) :=
    ⟨fun leaves => leaves self rfl, fun leaves _ same => by cases same; exact leaves⟩
  rw [leaves_iff]
  unfold toggleNodeIn
  by_cases outside : localityId ≥ self.optimizer.activeNodes.length
  · rw [if_pos outside, List.getElem?_eq_none outside]
    exact iff_of_true Stop.noConfusion fun active => absurd active (Option.some_ne_none _).symm
  · rw [if_neg outside, ← mem_modify_not (Nat.not_le.mp outside)]
    by_cases active : true ∈ self.optimizer.activeNodes.modify localityId not
    · refine iff_of_true ?_ active
      refine (SchedulingPolicy.ensures_createUniformIn active).bind fun policy _ => ?_
      exact .ite (fun _ => active) fun _ => active
    · refine iff_of_false ?_ active
      unfold SchedulingPolicy.createUniformIn
      simp only [TreeSchedulingPolicy.createUniformIn_of_not_mem active]
      exact fun populated => populated rfl

/-- In every run of commands, in builds with and without assertions, the uniform policy is always
rebuilt from at least one active node exactly if no command switches off the only active node. -/
theorem populated_run_iff (nodes : 0 < numLocalities) {env : Option String} {isRoot : Bool}
    {frequency : Nat} {history : List (Except Stop PolicyService × Command)}
    {state : Except Stop PolicyService}
    (run : (dashboard asserts numLocalities env isRoot frequency).Run history state) :
    System.Always Populated history state ↔
      System.Meets (fun state command => command.LeavesActive state) history := by
  apply run.always_iff (J := fun _ => True) trivial (fun _ _ => trivial)
    (populated_createIn nodes env isRoot frequency)
  rintro _ command _ - populated ⟨⟩
  cases command with
  | toggleNode localityId => exact populated_toggleNodeIn_iff _ localityId
  | setPolicy policy => exact iff_of_true (populated_setPolicyIn nodes populated policy) trivial

/-- A locality starts with a uniform policy for all nodes. -/
theorem run_uniform (asserts : Bool) (nodes : 0 < numLocalities) (isRoot : Bool)
    (frequency : Nat) : ∃ self, self.optimizer.activeNodes = List.replicate numLocalities true ∧
      (dashboard asserts numLocalities none isRoot frequency).Run [] (.ok self) := by
  obtain ⟨mapping, policy, -, made, -⟩ := TreeSchedulingPolicy.createUniform_eq nodes
    (max (ceilLog2 numLocalities + 3) 5)
  unfold TreeSchedulingPolicy.createUniform at made
  let self : PolicyService :=
    ⟨⟨.static, .tree policy⟩, isRoot, List.replicate numLocalities true, frequency⟩
  have start : createIn asserts numLocalities none isRoot frequency = .ok self := by
    unfold createIn createPolicyOfEnvIn createPolicyIn SchedulingPolicy.createUniformIn
    simp [TreeSchedulingPolicy.createUniformIn_of_some made, self]
  refine ⟨self, rfl, ?_⟩
  rw [← start]
  exact .start

/-- A run without assertions in which one of two nodes is switched off. -/
theorem populated_run_two : ∃ history state,
    (dashboard false 2 none true 0).Run history state ∧
      history.map Prod.snd = [.toggleNode 1] ∧
      (System.Always Populated history state ↔
        System.Meets (fun state command => command.LeavesActive state) history) := by
  obtain ⟨self, -, begun⟩ := run_uniform false (show 0 < 2 by decide) true 0
  have run := begun.step (@Executes.execute false 2 self (.toggleNode 1))
  exact ⟨_, _, run, rfl, populated_run_iff (by decide) run⟩

/-- With one locality, switching its node rebuilds the policy from no active node in both builds. -/
theorem not_populated_one :
    ¬ ∃ asserts, ∀ (numLocalities : Nat) (history : List (Except Stop PolicyService × Command))
      (state : Except Stop PolicyService), 0 < numLocalities →
      (dashboard asserts numLocalities none true 0).Run history state →
      System.Always Populated history state := by
  rintro ⟨asserts, claim⟩
  obtain ⟨self, nodes, begun⟩ := run_uniform asserts (show 0 < 1 by decide) true 0
  have run := begun.step (@Executes.execute asserts 1 self (.toggleNode 0))
  have leaves := (populated_toggleNodeIn_iff self 0).mp (claim _ _ _ (by decide) run).1
  obtain ⟨other, different, active⟩ := leaves self rfl (by rw [nodes]; rfl)
  rw [nodes, List.getElem?_replicate] at active
  split at active
  · omega
  · cases active

end PolicyService

end AllScale
