import AllScale.Dashboard
import AllScale.Hierarchy

/-!
# Commands on all localities

A command of the dashboard is broadcast: every locality runs its handler, which passes the scheduler
services of the locality one after the other, layer by layer, and changes at last whether the
locality is active. The next frame is read when all handlers have returned. In between, some
services hold what they held before the command and some what they hold after it.
-/

namespace AllScale

open Transition HierarchyAddress

namespace Dashboard

/-- A locality, as the handlers of the broadcasts see it. -/
structure Locality (F : Type) where
  /-- The services, by layer. -/
  services : List (Service F)
  /-- `active_`. -/
  active : Bool
  /-- How many services the handler of the command has passed, while it runs. -/
  passed : Option Nat

/-- The localities, and the command that has been broadcast last. -/
structure Cluster (F : Type) where
  localities : List (Locality F)
  command : Option (Command F)

/-- What happens. -/
inductive ClusterAction where
  /-- The dashboard reads a frame. -/
  | receive (frame : List UInt8)
  /-- The handler of a locality goes on. -/
  | handle (localityId : Nat)

variable {F : Type}

/-- The calls of `toggle_active` behind the loop of a handler. -/
def Command.setActive (localityId : Nat) (active : Bool) : Command F → Bool
  | .toggleNode id => if localityId = id then !active else active
  | .setPolicy _ => true
  | _ => active

section Model

variable (strtof : Conversion F) (asserts : Bool) (numLocalities : Nat)

/-- The constructor of `scheduler_service`. -/
def Service.create (env : Option String) (objective : TuningObjective F) (here : HierarchyAddress)
    (frequency : Nat) : Except Stop (Service F) := do
  let isRoot := here = getRootOfNetworkSize numLocalities
  return ⟨← PolicyService.createIn asserts numLocalities env isRoot frequency, objective⟩

/-- `installService` on a locality. -/
def Locality.create (env : Option String) (objective : TuningObjective F)
    (frequency : HierarchyAddress → Nat) (localityId : Nat) : Except Stop (Locality F) := do
  let services ← (List.range (getLayersOn localityId numLocalities)).mapM fun layer =>
    Service.create asserts numLocalities env objective ⟨localityId, layer⟩
      (frequency ⟨localityId, layer⟩)
  return ⟨services, true, none⟩

/-- The localities when they have started, in the same environment. -/
def Cluster.create (env : Option String) (objective : TuningObjective F)
    (frequency : HierarchyAddress → Nat) : Except Stop (Cluster F) := do
  let localities ← (List.range numLocalities).mapM
    (Locality.create asserts numLocalities env objective frequency)
  return ⟨localities, none⟩

/-- The next step of the handler of a command: the next service, or the end. -/
def Locality.handle (localityId : Nat) (command : Command F) (self : Locality F) :
    Option (Locality F) :=
  match self.passed with
  | none => none
  | some layer =>
    match self.services[layer]? with
    | some service =>
      match execute asserts numLocalities service command with
      | .ok after =>
        some { self with services := self.services.set layer after, passed := some (layer + 1) }
      | .error _ => none
    | none =>
      some { self with active := command.setActive localityId self.active, passed := none }

/-- Every handler has returned. -/
def Cluster.ready (self : Cluster F) : Bool := self.localities.all (·.passed.isNone)

/-- One action. The handler of a frame runs on locality zero, when the future of the last command is
ready. -/
def Cluster.step (self : Cluster F) : ClusterAction → Option (Cluster F)
  | .receive frame =>
    if self.ready then do
      let locality ← self.localities[0]?
      let service ← locality.services[0]?
      match handleCommand strtof asserts numLocalities service frame with
      | .executed command _ =>
        some ⟨self.localities.map ({ · with passed := some 0 }), some command⟩
      | .reported _ _ _ => some self
      | _ => none
    else none
  | .handle localityId => do
    let command ← self.command
    let locality ← self.localities[localityId]?
    let locality ← locality.handle asserts numLocalities localityId command
    return { self with localities := self.localities.set localityId locality }

/-- The runs of the localities. -/
def broadcasting (start : Cluster F) : System (Cluster F) ClusterAction where
  start := start
  step := fun self action self' =>
    self.step strtof asserts numLocalities action = some self'

/-! ## One service -/

/-- A service that handles a frame. -/
inductive Handles (self : Service F) (frame : List UInt8) (after : Service F) : Prop
  | executed (command : Command F) :
      handleCommand strtof asserts numLocalities self frame = .executed command (.ok after) →
      Handles self frame after
  | reported (command payload : String) :
      handleCommand strtof asserts numLocalities self frame = .reported command payload after →
      Handles self frame after

/-- One service that handles one frame after the other. -/
def handling (start : Service F) : System (Service F) (List UInt8) where
  start := start
  step := Handles strtof asserts numLocalities

end Model

/-- The frame that an action reads. -/
def ClusterAction.reads : ClusterAction → List (List UInt8)
  | .receive frame => [frame]
  | .handle _ => []

/-- The frames of a run, the latest first. -/
def received (history : List (Cluster F × ClusterAction)) : List (List UInt8) :=
  history.flatMap fun taken => taken.2.reads

/-! ## Services that hold the same -/

/-- Two services hold the same, wherever they are. -/
structure Service.Same (one other : Service F) : Prop where
  policy : one.scheduler.policy = other.scheduler.policy
  activeNodes : one.scheduler.optimizer.activeNodes = other.scheduler.optimizer.activeNodes
  objective : one.objective = other.objective

variable {strtof : Conversion F} {asserts : Bool} {numLocalities : Nat}
variable {self other after : Service F} {command : Command F} {frame : List UInt8}

/-- The order of the services does not matter. -/
theorem Service.Same.symm (same : self.Same other) : other.Same self :=
  ⟨same.policy.symm, same.activeNodes.symm, same.objective.symm⟩

/-- A call of `set_policy` returns exactly if the policy can be made. -/
theorem execute_setPolicy {name : String} :
    execute asserts numLocalities self (.setPolicy name) = .ok after ↔
      ∃ pol, createPolicyIn asserts numLocalities name = .ok pol ∧
        ⟨⟨pol, self.scheduler.isRoot,
          ⟨List.replicate self.scheduler.optimizer.activeNodes.length true,
            self.scheduler.optimizer.activeFrequency⟩⟩, self.objective⟩ = after := by
  have same : execute asserts numLocalities self (.setPolicy name) =
      createPolicyIn asserts numLocalities name >>= fun pol =>
        .ok ⟨⟨pol, self.scheduler.isRoot,
          ⟨List.replicate self.scheduler.optimizer.activeNodes.length true,
            self.scheduler.optimizer.activeFrequency⟩⟩, self.objective⟩ := by
    simp only [execute, PolicyService.setPolicyIn]
    cases createPolicyIn asserts numLocalities name <;> rfl
  rw [same, bind_eq_ok]
  simp only [Except.ok.injEq]

/-- A call of `toggle_node` returns exactly if there is such a node and a uniform policy for the
nodes that are active then. -/
theorem execute_toggleNode {localityId : Nat} :
    execute asserts numLocalities self (.toggleNode localityId) = .ok after ↔
      localityId < self.scheduler.optimizer.activeNodes.length ∧
        ∃ uniform, SchedulingPolicy.createUniformIn asserts
            (self.scheduler.optimizer.activeNodes.modify localityId not) = .ok uniform ∧
          ⟨⟨⟨if self.scheduler.policy.value = .random then .static else self.scheduler.policy.value,
            uniform⟩, self.scheduler.isRoot,
            ⟨self.scheduler.optimizer.activeNodes.modify localityId not,
              self.scheduler.optimizer.activeFrequency⟩⟩, self.objective⟩ = after := by
  by_cases inside : localityId < self.scheduler.optimizer.activeNodes.length
  · have same : execute asserts numLocalities self (.toggleNode localityId) =
        SchedulingPolicy.createUniformIn asserts
          (self.scheduler.optimizer.activeNodes.modify localityId not) >>= fun uniform =>
            .ok ⟨⟨⟨if self.scheduler.policy.value = .random then .static
              else self.scheduler.policy.value, uniform⟩, self.scheduler.isRoot,
              ⟨self.scheduler.optimizer.activeNodes.modify localityId not,
                self.scheduler.optimizer.activeFrequency⟩⟩, self.objective⟩ := by
      simp only [execute, PolicyService.toggleNodeIn, if_neg (Nat.not_le_of_lt inside)]
      cases SchedulingPolicy.createUniformIn asserts
        (self.scheduler.optimizer.activeNodes.modify localityId not) with
      | error stop => rfl
      | ok uniform =>
        by_cases random : self.scheduler.policy.value = .random
        · simp only [if_pos random]
          rfl
        · simp only [if_neg random]
          rfl
    rw [same, bind_eq_ok]
    simp only [Except.ok.injEq, inside, true_and]
  · simp only [execute, PolicyService.toggleNodeIn, if_pos (Nat.le_of_not_lt inside), inside,
      false_and, iff_false]
    exact fun executed => by cases executed

/-- Services that hold the same execute a command alike. -/
theorem execute_same (same : self.Same other)
    (executed : execute asserts numLocalities self command = .ok after) :
    ∃ after', execute asserts numLocalities other command = .ok after' ∧ after.Same after' := by
  cases command with
  | setPolicy name =>
    obtain ⟨pol, made, rfl⟩ := execute_setPolicy.mp executed
    refine ⟨_, execute_setPolicy.mpr ⟨pol, made, rfl⟩, rfl, ?_, same.objective⟩
    exact congrArg (fun nodes : List Bool => List.replicate nodes.length true) same.activeNodes
  | toggleNode localityId =>
    obtain ⟨inside, uniform, made, rfl⟩ := execute_toggleNode.mp executed
    rw [same.activeNodes] at inside made
    refine ⟨_, execute_toggleNode.mpr ⟨inside, uniform, made, rfl⟩, ?_, ?_, same.objective⟩
    · simp only [same.policy]
    · exact congrArg (List.modify · localityId not) same.activeNodes
  | setSpeedExponent exp =>
    cases executed
    exact ⟨_, rfl, same.policy, same.activeNodes, by simp only [same.objective]⟩
  | setEfficiencyExponent exp =>
    cases executed
    exact ⟨_, rfl, same.policy, same.activeNodes, by simp only [same.objective]⟩
  | setPowerExponent exp =>
    cases executed
    exact ⟨_, rfl, same.policy, same.activeNodes, by simp only [same.objective]⟩

/-- A locality is active after a command as its bit of the active nodes says. -/
theorem activeNodes_execute {localityId : Nat} {active : Bool}
    (executed : execute asserts numLocalities self command = .ok after)
    (node : self.scheduler.optimizer.activeNodes[localityId]? = some active) :
    after.scheduler.optimizer.activeNodes[localityId]? =
      some (command.setActive localityId active) := by
  cases command with
  | setPolicy name =>
    obtain ⟨pol, -, rfl⟩ := execute_setPolicy.mp executed
    exact List.getElem?_replicate_of_lt (List.getElem?_eq_some_iff.mp node).1
  | toggleNode id =>
    obtain ⟨-, uniform, -, rfl⟩ := execute_toggleNode.mp executed
    by_cases here : localityId = id
    · subst here
      simp only [List.getElem?_modify_eq, node, Command.setActive]
      rfl
    · simp only [List.getElem?_modify_ne _ _ (Ne.symm here), Command.setActive, if_neg here]
      exact node
  | setSpeedExponent exp =>
    cases executed
    exact node
  | setEfficiencyExponent exp =>
    cases executed
    exact node
  | setPowerExponent exp =>
    cases executed
    exact node

/-- What two services make of the same frame. -/
inductive Alike (asserts : Bool) (numLocalities : Nat) (one other : Service F) :
    Handled F → Handled F → Prop
  | executed (command : Command F) : Alike asserts numLocalities one other
      (.executed command (execute asserts numLocalities one command))
      (.executed command (execute asserts numLocalities other command))
  | reported (command payload : String) : Alike asserts numLocalities one other
      (.reported command payload one) (.reported command payload other)
  | escaped (exception : Exception) :
      Alike asserts numLocalities one other (.escaped exception) (.escaped exception)
  | outside : Alike asserts numLocalities one other .outside .outside

/-- The same command is executed. -/
theorem Alike.of_executed {one other : Service F} {result : Except Stop (Service F)}
    {handled : Handled F}
    (alike : Alike asserts numLocalities one other (.executed command result) handled) :
    handled = .executed command (execute asserts numLocalities other command) := by
  cases alike
  rfl

/-- The same command is reported. -/
theorem Alike.of_reported {one other : Service F} {name payload : String} {handled : Handled F}
    (alike : Alike asserts numLocalities one other (.reported name payload after) handled) :
    handled = .reported name payload other := by
  cases alike
  rfl

/-- A payload is converted alike wherever it is handled. -/
theorem executeWith_alike {α : Type} (payload : Except Exception α) (call : α → Command F)
    (one other : Service F) : Alike asserts numLocalities one other
      (executeWith asserts numLocalities one payload call)
      (executeWith asserts numLocalities other payload call) := by
  cases payload with
  | ok value => exact .executed (call value)
  | error exception => exact .escaped exception

/-- A frame is handled alike wherever it is handled. -/
theorem handleCommand_alike (strtof : Conversion F) (asserts : Bool) (numLocalities : Nat)
    (one other : Service F) (frame : List UInt8) :
    Alike asserts numLocalities one other
      (handleCommand strtof asserts numLocalities one frame)
      (handleCommand strtof asserts numLocalities other frame) := by
  unfold handleCommand
  simp only
  by_cases blank : frame.idxOf 32 = frame.length
  · rw [if_pos blank, if_pos blank]
    exact .outside
  rw [if_neg blank, if_neg blank]
  unfold dispatch
  by_cases policy : text (frame.take (frame.idxOf 32)) = "set_scheduler"
  · rw [if_pos policy, if_pos policy]
    exact executeWith_alike _ _ one other
  rw [if_neg policy, if_neg policy]
  by_cases node : text (frame.take (frame.idxOf 32)) = "toggle_node"
  · rw [if_pos node, if_pos node]
    exact executeWith_alike _ _ one other
  rw [if_neg node, if_neg node]
  by_cases speed : text (frame.take (frame.idxOf 32)) = "set_speed"
  · rw [if_pos speed, if_pos speed]
    exact executeWith_alike _ _ one other
  rw [if_neg speed, if_neg speed]
  by_cases efficiency : text (frame.take (frame.idxOf 32)) = "set_efficiency"
  · rw [if_pos efficiency, if_pos efficiency]
    exact executeWith_alike _ _ one other
  rw [if_neg efficiency, if_neg efficiency]
  by_cases power : text (frame.take (frame.idxOf 32)) = "set_power"
  · rw [if_pos power, if_pos power]
    exact executeWith_alike _ _ one other
  rw [if_neg power, if_neg power]
  exact .reported _ _

/-! ## Localities in step -/

/-- A locality whose handler has returned holds what one service holds, and it is active as that
service has it. -/
structure Locality.Settled (localityId : Nat) (one : Service F) (locality : Locality F) : Prop where
  services : ∀ service ∈ locality.services, service.Same one
  active : one.scheduler.optimizer.activeNodes[localityId]? = some locality.active

/-- A locality whose handler has passed the services below a layer. -/
structure Locality.Passing (localityId layer : Nat) (before : Service F)
    (result : Except Stop (Service F)) (locality : Locality F) : Prop where
  bounded : layer ≤ locality.services.length
  /-- The services that have been passed hold the result of the command. -/
  below : ∀ i service, i < layer → locality.services[i]? = some service →
    ∃ after, result = .ok after ∧ service.Same after
  /-- The other ones hold what they held before. -/
  rest : ∀ i service, layer ≤ i → locality.services[i]? = some service → service.Same before
  active : before.scheduler.optimizer.activeNodes[localityId]? = some locality.active

/-- A locality during a command. -/
def Locality.Between (localityId : Nat) (before : Service F) (result : Except Stop (Service F))
    (locality : Locality F) : Prop :=
  match locality.passed with
  | some layer => locality.Passing localityId layer before result
  | none => ∃ after, result = .ok after ∧ locality.Settled localityId after

variable {locality locality' : Locality F} {localityId layer : Nat} {before : Service F}

/-- The handler of a command starts. -/
theorem Locality.Settled.between (settled : locality.Settled localityId before)
    (result : Except Stop (Service F)) :
    Locality.Between localityId before result { locality with passed := some 0 } where
  bounded := Nat.zero_le _
  below := fun _ _ less _ => absurd less (Nat.not_lt_zero _)
  rest := fun _ service _ found => settled.services service (List.mem_of_getElem? found)
  active := settled.active

/-- A step of the handler passes a service, or is the end. -/
theorem Locality.Between.handle (between : locality.Between localityId before
      (execute asserts numLocalities before command))
    (inhabited : locality.services ≠ [])
    (handled : locality.handle asserts numLocalities localityId command = some locality') :
    locality'.Between localityId before (execute asserts numLocalities before command) ∧
      locality'.services.length = locality.services.length := by
  obtain ⟨services, active, passed⟩ := locality
  cases passed with
  | none => cases handled
  | some layer =>
    have passing : Passing localityId layer before (execute asserts numLocalities before command)
      ⟨services, active, some layer⟩ := between
    unfold Locality.handle at handled
    simp only at handled
    split at handled
    · rename_i service here
      have inside := (List.getElem?_eq_some_iff.mp here).1
      split at handled
      · rename_i after executed
        cases handled
        obtain ⟨after', result, same⟩ :=
          execute_same (passing.rest layer service le_rfl here) executed
        refine ⟨⟨?_, fun i other less found => ?_, fun i other least found => ?_,
          passing.active⟩, List.length_set⟩
        · simp only [List.length_set]
          exact inside
        · by_cases current : layer = i
          · simp only [current, List.getElem?_set_self (current ▸ inside)] at found
            cases found
            exact ⟨after', result, same⟩
          · simp only [List.getElem?_set_ne current] at found
            exact passing.below i other (by omega) found
        · simp only [List.getElem?_set_ne (show layer ≠ i by omega)] at found
          exact passing.rest i other (by omega) found
      · cases handled
    · rename_i behind
      cases handled
      have last : layer = services.length :=
        le_antisymm passing.bounded (List.getElem?_eq_none_iff.mp behind)
      have positive : 0 < services.length := List.length_pos_iff.mpr inhabited
      obtain ⟨after, result, -⟩ := passing.below 0 services[0] (by omega)
        (List.getElem?_eq_getElem positive)
      refine ⟨⟨after, result, fun service found => ?_,
        activeNodes_execute result passing.active⟩, rfl⟩
      obtain ⟨i, inside, rfl⟩ := List.mem_iff_getElem.mp found
      have inside : i < services.length := inside
      obtain ⟨after', result', same⟩ := passing.below i services[i] (by omega)
        (List.getElem?_eq_getElem inside)
      rw [result] at result'
      cases result'
      exact same

/-- When the command can be executed, the handler can go on. -/
theorem Locality.Between.proceeds (between : locality.Between localityId before
      (execute asserts numLocalities before command))
    (executed : execute asserts numLocalities before command = .ok after)
    (running : locality.passed ≠ none) :
    (locality.handle asserts numLocalities localityId command).isSome := by
  obtain ⟨services, active, passed⟩ := locality
  cases passed with
  | none => exact absurd rfl running
  | some layer =>
    have passing : Passing localityId layer before (execute asserts numLocalities before command)
      ⟨services, active, some layer⟩ := between
    unfold Locality.handle
    simp only
    split
    · rename_i service here
      obtain ⟨after', result, -⟩ :=
        execute_same (passing.rest layer service le_rfl here).symm executed
      rw [result]
      rfl
    · rfl

end Dashboard

end AllScale
