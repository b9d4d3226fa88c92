import AllScale.SchedulePolicy.Broadcast

/-!
# Runs of commands

However the handlers on the localities overlap, the services follow one service that handles the
commands one after the other: between two commands all of them agree with it, and during a command
each of them has the state before or after.
-/

namespace AllScale

open Transition HierarchyAddress

namespace Dashboard

variable {F : Type} {strtof : Conversion F} {asserts : Bool} {numLocalities : Nat}
variable {self other after : Service F} {command : Command F} {frame : List UInt8}
variable {locality locality' : Locality F} {localityId layer : Nat} {before : Service F}

/-! ## One command after the other -/

/-- Every locality has a service. -/
structure Cluster.Inhabited (cluster : Cluster F) : Prop where
  localities : cluster.localities ≠ []
  services : ∀ locality ∈ cluster.localities, locality.services ≠ []

/-- What the localities hold after the frames that have been received: what one service holds, which
has handled all of them, or all but the last one while that is broadcast. -/
inductive Cluster.InStep (strtof : Conversion F) (asserts : Bool) (numLocalities : Nat)
    (start : Service F) (frames : List (List UInt8)) (cluster : Cluster F) : Prop
  | settled {one : Service F} {taken : List (Service F × List UInt8)} :
      (handling strtof asserts numLocalities start).Run taken one →
      taken.map Prod.snd = frames →
      (∀ (localityId : Nat) (locality : Locality F),
        cluster.localities[localityId]? = some locality →
          locality.passed = none ∧ locality.Settled localityId one) →
      InStep strtof asserts numLocalities start frames cluster
  | busy {before : Service F} {taken : List (Service F × List UInt8)} {frame : List UInt8}
      {command : Command F} :
      (handling strtof asserts numLocalities start).Run taken before →
      frame :: taken.map Prod.snd = frames →
      handleCommand strtof asserts numLocalities before frame =
        .executed command (execute asserts numLocalities before command) →
      cluster.command = some command →
      (∀ (localityId : Nat) (locality : Locality F),
        cluster.localities[localityId]? = some locality →
          locality.Between localityId before (execute asserts numLocalities before command)) →
      InStep strtof asserts numLocalities start frames cluster

variable {start one : Service F} {frames : List (List UInt8)} {cluster cluster' : Cluster F}

/-- When all handlers have returned, the last command has been executed. -/
theorem Cluster.InStep.settle (inStep : cluster.InStep strtof asserts numLocalities start frames)
    (inhabited : cluster.Inhabited) (ready : cluster.ready = true) :
    ∃ one taken, (handling strtof asserts numLocalities start).Run taken one ∧
      taken.map Prod.snd = frames ∧
      ∀ (localityId : Nat) (locality : Locality F),
        cluster.localities[localityId]? = some locality → locality.Settled localityId one := by
  cases inStep with
  | settled run same settled =>
    exact ⟨_, _, run, same, fun localityId locality found => (settled localityId locality found).2⟩
  | @busy before taken frame command run same handled _ between =>
    have returned {localityId : Nat} {locality : Locality F}
        (found : cluster.localities[localityId]? = some locality) :
        ∃ after, execute asserts numLocalities before command = .ok after ∧
          locality.Settled localityId after := by
      have all := List.all_eq_true.mp ready locality (List.mem_of_getElem? found)
      have passed : locality.passed = none := Option.isNone_iff_eq_none.mp all
      have here := between localityId locality found
      unfold Locality.Between at here
      rw [passed] at here
      exact here
    have first := List.getElem?_eq_getElem (List.length_pos_iff.mpr inhabited.localities)
    obtain ⟨after, executed, -⟩ := returned first
    refine ⟨after, _, run.step (.executed command (executed ▸ handled)), same,
      fun localityId locality found => ?_⟩
    obtain ⟨after', executed', settled⟩ := returned found
    rw [executed] at executed'
    cases executed'
    exact settled

/-- Every action keeps the localities in step. -/
theorem Cluster.InStep.step {action : ClusterAction}
    (inStep : cluster.InStep strtof asserts numLocalities start frames)
    (inhabited : cluster.Inhabited)
    (taken : cluster.step strtof asserts numLocalities action = some cluster') :
    cluster'.InStep strtof asserts numLocalities start (action.reads ++ frames) ∧
      cluster'.Inhabited := by
  cases action with
  | receive frame =>
    simp only [Cluster.step, Option.bind_eq_bind] at taken
    split at taken
    · rename_i ready
      obtain ⟨one, past, run, same, settled⟩ := inStep.settle inhabited ready
      simp only [Option.bind_eq_some_iff] at taken
      obtain ⟨first, -, service, -, taken⟩ := taken
      have alike := handleCommand_alike strtof asserts numLocalities service one frame
      split at taken
      · rename_i command result handled
        cases taken
        rw [handled] at alike
        refine ⟨.busy run (by rw [same]; rfl) alike.of_executed rfl
          fun localityId locality found => ?_, ?_, ?_⟩
        · rw [List.getElem?_map] at found
          obtain ⟨old, there, rfl⟩ := Option.map_eq_some_iff.mp found
          exact (settled localityId old there).between _
        · exact fun empty => inhabited.localities (List.map_eq_nil_iff.mp empty)
        · exact List.forall_mem_map.mpr inhabited.services
      · rename_i name payload after handled
        cases taken
        rw [handled] at alike
        refine ⟨.settled (run.step (.reported name payload alike.of_reported))
          (by rw [List.map_cons, same]; rfl) fun localityId locality found => ?_, inhabited⟩
        have returned := List.all_eq_true.mp ready locality (List.mem_of_getElem? found)
        exact ⟨Option.isNone_iff_eq_none.mp returned, settled localityId locality found⟩
      · cases taken
    · cases taken
  | handle localityId =>
    simp only [Cluster.step, Option.bind_eq_bind, Option.bind_eq_some_iff] at taken
    obtain ⟨command, last, locality, found, locality', handled, same⟩ := taken
    cases same
    have here := inhabited.services locality (List.mem_of_getElem? found)
    cases inStep with
    | settled run same settled =>
      unfold Locality.handle at handled
      rw [(settled localityId locality found).1] at handled
      cases handled
    | busy run same called last' between =>
      cases last.symm.trans last'
      obtain ⟨between', length⟩ := (between localityId locality found).handle here handled
      refine ⟨.busy run same called last' fun id other found' => ?_, ?_, fun other there => ?_⟩
      · by_cases current : localityId = id
        · simp only [← current,
            List.getElem?_set_self (List.getElem?_eq_some_iff.mp found).1] at found'
          cases found'
          exact current ▸ between'
        · simp only [List.getElem?_set_ne current] at found'
          exact between id other found'
      · simpa using inhabited.localities
      · rcases List.mem_or_eq_of_mem_set there with there | rfl
        · exact inhabited.services other there
        · exact List.ne_nil_of_length_pos (length ▸ List.length_pos_iff.mpr here)

/-! ## Policies that are not balanced -/

/-- The names of the policies under which the optimizer sends messages. -/
def balancing : List String := ["balanced", "tuned", "ino"]

/-- No policy has been chosen under which the optimizer sends messages. -/
def Cluster.Plain (cluster : Cluster F) : Prop :=
  ∀ policy, cluster.command = some (.setPolicy policy) → policy ∉ balancing

/-- A service that never calls the optimizer. -/
def Service.Quiet (service : Service F) : Prop :=
  service.scheduler.policy.value = .static ∨ service.scheduler.policy.value = .random

/-- A policy that is not balanced is static or random. -/
theorem quiet_createPolicyIn (asserts : Bool) (numLocalities : Nat) {name : String}
    (plain : name ∉ balancing) :
    Ensures (fun _ => True) (fun policy => policy.value = .static ∨ policy.value = .random)
      (createPolicyIn asserts numLocalities name) := by
  have uniform : Ensures (fun _ => True)
      (fun policy : ReplacablePolicy => policy.value = .static ∨ policy.value = .random) (do
        return (⟨.static, ← SchedulingPolicy.createUniformIn asserts
          (List.replicate numLocalities true)⟩ : ReplacablePolicy)) := by
    cases SchedulingPolicy.createUniformIn asserts (List.replicate numLocalities true) with
    | ok policy => exact .inl rfl
    | error stop => trivial
  simp only [balancing, List.mem_cons, List.not_mem_nil, or_false, not_or] at plain
  unfold createPolicyIn
  apply Ensures.ite (fun _ => uniform) fun _ => ?_
  apply Ensures.ite (fun same => absurd same plain.1) fun _ => ?_
  apply Ensures.ite (fun same => absurd same plain.2.1) fun _ => ?_
  apply Ensures.ite (fun same => absurd same plain.2.2) fun _ => ?_
  exact .ite (fun _ => Or.inr rfl) fun _ => uniform

/-- No command lets a service call the optimizer, except for those that choose its policies. -/
theorem Service.Quiet.execute (quiet : self.Quiet)
    (plain : ∀ policy, command = .setPolicy policy → policy ∉ balancing) :
    Ensures (fun _ => True) Service.Quiet (execute asserts numLocalities self command) := by
  cases command with
  | setPolicy policy =>
    have chosen : Ensures (fun _ => True) (fun after : PolicyService =>
        after.policy.value = .static ∨ after.policy.value = .random)
        (self.scheduler.setPolicyIn asserts numLocalities policy) :=
      (quiet_createPolicyIn asserts numLocalities (plain policy rfl)).bind fun pol value => value
    exact chosen.bind fun after value => value
  | toggleNode localityId =>
    have switched : Ensures (fun _ => True) (fun after : PolicyService =>
        after.policy.value = .static ∨ after.policy.value = .random)
        (self.scheduler.toggleNodeIn asserts localityId) := by
      unfold PolicyService.toggleNodeIn
      refine .ite (fun _ => .throw trivial) fun _ => ?_
      dsimp only
      cases SchedulingPolicy.createUniformIn asserts
        (self.scheduler.optimizer.activeNodes.modify localityId not) with
      | ok policy => exact .ite (fun _ => .inl rfl) fun _ => quiet
      | error stop => trivial
    exact switched.bind fun after value => value
  | setSpeedExponent exp => exact quiet
  | setEfficiencyExponent exp => exact quiet
  | setPowerExponent exp => exact quiet

/-- A quiet service does not call the optimizer. -/
theorem Service.Quiet.balance (quiet : self.Quiet) (root : self.scheduler.isRoot = true)
    (fuel : Nat) : self.scheduler.balance fuel = .ok none := by
  unfold PolicyService.balance
  rcases quiet with static | random
  · simp [root, static]
    rfl
  · simp [root, random]
    rfl

/-- No service calls the optimizer. -/
def Cluster.Quiet (cluster : Cluster F) : Prop :=
  ∀ locality ∈ cluster.localities, ∀ service ∈ locality.services, service.Quiet

/-- No action lets a service call the optimizer, while the commands are plain. -/
theorem Cluster.Quiet.step {action : ClusterAction} (quiet : cluster.Quiet) (plain : cluster.Plain)
    (taken : cluster.step strtof asserts numLocalities action = some cluster') :
    cluster'.Quiet := by
  cases action with
  | receive frame =>
    simp only [Cluster.step, Option.bind_eq_bind] at taken
    split at taken
    · simp only [Option.bind_eq_some_iff] at taken
      obtain ⟨first, -, service, -, taken⟩ := taken
      split at taken
      · cases taken
        exact List.forall_mem_map.mpr quiet
      · cases taken
        exact quiet
      · cases taken
    · cases taken
  | handle localityId =>
    simp only [Cluster.step, Option.bind_eq_bind, Option.bind_eq_some_iff] at taken
    obtain ⟨command, last, locality, found, locality', handled, same⟩ := taken
    cases same
    have here := quiet locality (List.mem_of_getElem? found)
    intro other there
    rcases List.mem_or_eq_of_mem_set there with there | rfl
    · exact quiet other there
    · unfold Locality.handle at handled
      split at handled
      · cases handled
      · split at handled
        · rename_i service passed
          have before := here service (List.mem_of_getElem? passed)
          have ensures : Ensures (fun _ => True) Service.Quiet
              (execute asserts numLocalities service command) :=
            before.execute fun policy chosen => plain policy (chosen ▸ last)
          split at handled
          · rename_i after executed
            cases handled
            rw [executed] at ensures
            intro service member
            rcases List.mem_or_eq_of_mem_set member with member | rfl
            · exact here service member
            · exact ensures
          · cases handled
        · cases handled
          exact here

/-! ## The start -/

variable {env : Option String} {objective : TuningObjective F} {frequency : HierarchyAddress → Nat}

/-- A service that has started follows the policy of the environment, and all nodes are active. -/
theorem Service.create_eq_ok {here : HierarchyAddress} {frequency : Nat}
    (created : Service.create asserts numLocalities env objective here frequency = .ok self) :
    ∃ policy, createPolicyOfEnvIn asserts numLocalities env = .ok policy ∧
      self.scheduler.policy = policy ∧
      self.scheduler.optimizer.activeNodes = List.replicate numLocalities true ∧
      self.objective = objective := by
  obtain ⟨scheduler, made, same⟩ := bind_eq_ok.mp created
  obtain ⟨policy, chosen, same'⟩ := bind_eq_ok.mp made
  cases same'
  cases same
  exact ⟨policy, chosen, rfl, rfl, rfl⟩

/-- A locality that has started has its services, and it is active. -/
theorem Locality.create_eq_ok (inside : localityId < numLocalities)
    (created : Locality.create asserts numLocalities env objective frequency localityId =
      .ok locality) :
    locality.services ≠ [] ∧ locality.passed = none ∧ locality.active = true ∧
      ∀ service ∈ locality.services, ∃ policy,
        createPolicyOfEnvIn asserts numLocalities env = .ok policy ∧
        service.scheduler.policy = policy ∧
        service.scheduler.optimizer.activeNodes = List.replicate numLocalities true ∧
        service.objective = objective := by
  obtain ⟨services, started, same⟩ := bind_eq_ok.mp created
  cases same
  obtain ⟨length, each⟩ := mapM_range_eq_ok started
  have leaf : InNetwork numLocalities ⟨localityId, 0⟩ :=
    inNetwork_iff.mpr ⟨inside, one_dvd _, Nat.zero_le _⟩
  refine ⟨List.ne_nil_of_length_pos (length ▸ leaf.2), rfl, rfl, fun service member => ?_⟩
  obtain ⟨layer, found⟩ := List.mem_iff_getElem?.mp member
  exact Service.create_eq_ok (each layer service found)

/-- The localities start in step, with services that follow the policy of the environment. -/
theorem Cluster.create_eq_ok (nodes : 0 < numLocalities)
    (created : Cluster.create asserts numLocalities env objective frequency = .ok cluster) :
    cluster.Inhabited ∧ cluster.command = none ∧
      ∃ one policy, createPolicyOfEnvIn asserts numLocalities env = .ok policy ∧
        one.scheduler.policy = policy ∧
        ∀ (localityId : Nat) (locality : Locality F),
          cluster.localities[localityId]? = some locality →
            locality.passed = none ∧ locality.Settled localityId one := by
  obtain ⟨localities, started, same⟩ := bind_eq_ok.mp created
  cases same
  obtain ⟨length, each⟩ := mapM_range_eq_ok started
  have start {localityId : Nat} {locality : Locality F}
      (found : localities[localityId]? = some locality) :
      localityId < numLocalities ∧ Locality.create asserts numLocalities env objective frequency
        localityId = .ok locality :=
    ⟨length ▸ (List.getElem?_eq_some_iff.mp found).1, each localityId locality found⟩
  have first := List.getElem?_eq_getElem (length ▸ nodes)
  obtain ⟨inhabited, -, -, services⟩ := Locality.create_eq_ok nodes (start first).2
  obtain ⟨one, member⟩ := List.exists_mem_of_ne_nil _ inhabited
  obtain ⟨policy, chosen, same, nodes', target⟩ := services one member
  refine ⟨⟨List.ne_nil_of_length_pos (length ▸ nodes), fun locality there => ?_⟩, rfl, one,
    policy, chosen, same, fun localityId locality found => ?_⟩
  · obtain ⟨localityId, found⟩ := List.mem_iff_getElem?.mp there
    exact (Locality.create_eq_ok (start found).1 (start found).2).1
  · obtain ⟨inside, made⟩ := start found
    obtain ⟨-, returned, active, services⟩ := Locality.create_eq_ok inside made
    refine ⟨returned, fun service member => ?_, ?_⟩
    · obtain ⟨policy', chosen', same', nodes'', target'⟩ := services service member
      rw [chosen] at chosen'
      cases chosen'
      exact ⟨same'.trans same.symm, nodes''.trans nodes'.symm, target'.trans target.symm⟩
    · rw [nodes', active]
      exact List.getElem?_replicate_of_lt inside

/-- The services of a policy of the environment that is not balanced start quiet. -/
theorem Cluster.quiet_create (nodes : 0 < numLocalities)
    (plain : ∀ policy ∈ env, policy ∉ balancing)
    (created : Cluster.create asserts numLocalities env objective frequency = .ok cluster) :
    cluster.Quiet := by
  obtain ⟨-, -, one, policy, chosen, same, settled⟩ := Cluster.create_eq_ok nodes created
  have quiet : one.Quiet := by
    unfold Service.Quiet
    rw [same]
    cases env with
    | none =>
      have uniform : "uniform" ∉ balancing := by decide
      have ensures := quiet_createPolicyIn asserts numLocalities uniform
      rw [show createPolicyIn asserts numLocalities "uniform" = .ok policy from chosen] at ensures
      exact ensures
    | some name =>
      have ensures := quiet_createPolicyIn asserts numLocalities (plain name rfl)
      rw [show createPolicyIn asserts numLocalities name = .ok policy from chosen] at ensures
      exact ensures
  intro locality there service member
  obtain ⟨localityId, found⟩ := List.mem_iff_getElem?.mp there
  have same := ((settled localityId locality found).2.services service member).policy
  unfold Service.Quiet
  rw [same]
  exact quiet

/-! ## Whole runs -/

/-- What holds after the frames of a run. -/
structure OneService (strtof : Conversion F) (asserts : Bool) (numLocalities : Nat)
    (start : Service F) (frames : List (List UInt8)) (cluster : Cluster F) : Prop where
  /-- When all handlers have returned, all services hold what one service holds that has handled all
  frames, and a locality is active as that service has it. -/
  settled : cluster.ready = true →
    ∃ one taken, (handling strtof asserts numLocalities start).Run taken one ∧
      taken.map Prod.snd = frames ∧
      ∀ (localityId : Nat) (locality : Locality F),
        cluster.localities[localityId]? = some locality → locality.Settled localityId one
  /-- Otherwise the last frame is a command, which some services have executed and others have not;
  if it can be executed, each handler that has not returned can go on. -/
  busy : cluster.ready = false →
    ∃ before taken frame command, (handling strtof asserts numLocalities start).Run taken before ∧
      frame :: taken.map Prod.snd = frames ∧
      handleCommand strtof asserts numLocalities before frame =
        .executed command (execute asserts numLocalities before command) ∧
      ∀ (localityId : Nat) (locality : Locality F),
        cluster.localities[localityId]? = some locality →
          locality.Between localityId before (execute asserts numLocalities before command) ∧
          (locality.passed ≠ none →
            (∃ after, execute asserts numLocalities before command = .ok after) →
            (cluster.step strtof asserts numLocalities (.handle localityId)).isSome)

/-- What holds of localities in step. -/
theorem Cluster.InStep.oneService (inhabited : cluster.Inhabited)
    (inStep : cluster.InStep strtof asserts numLocalities start frames) :
    OneService strtof asserts numLocalities start frames cluster where
  settled := inStep.settle inhabited
  busy := fun running => by
    cases inStep with
    | settled run same settled =>
      obtain ⟨locality, there, passed⟩ := List.all_eq_false.mp running
      obtain ⟨localityId, found⟩ := List.mem_iff_getElem?.mp there
      exact absurd (by rw [(settled localityId locality found).1]; rfl) passed
    | busy run same handled last between =>
      refine ⟨_, _, _, _, run, same, handled, fun localityId locality found => ?_⟩
      have here := between localityId locality found
      refine ⟨here, fun passed executed => ?_⟩
      obtain ⟨after, executed⟩ := executed
      obtain ⟨locality', handles⟩ := Option.isSome_iff_exists.mp (here.proceeds executed passed)
      simp only [Cluster.step, last, found, handles, Option.bind_eq_bind, Option.bind_some]
      rfl

/-- In every run of commands, however the handlers on the localities overlap, the services on all
localities follow one service that handles the commands one after the other. As long as only
policies that are not balanced are chosen, no service calls the optimizer, so nothing but the
commands changes the services. -/
theorem one_service_of_run (nodes : 0 < numLocalities) {begin : Cluster F}
    (created : Cluster.create asserts numLocalities env objective frequency = .ok begin)
    {history : List (Cluster F × ClusterAction)}
    (run : (broadcasting strtof asserts numLocalities begin).Run history cluster) :
    (∃ start, (∀ (localityId : Nat) (locality : Locality F),
        begin.localities[localityId]? = some locality → locality.Settled localityId start) ∧
      OneService strtof asserts numLocalities start (received history) cluster) ∧
    ((∀ policy ∈ env, policy ∉ balancing) → System.Always Cluster.Plain history cluster →
      ∀ locality ∈ cluster.localities, ∀ service ∈ locality.services,
        service.scheduler.isRoot = true → ∀ fuel, service.scheduler.balance fuel = .ok none) := by
  constructor
  · obtain ⟨inhabited, -, start, -, -, -, settled⟩ := Cluster.create_eq_ok nodes created
    refine ⟨start, fun localityId locality found => (settled localityId locality found).2, ?_⟩
    suffices follows : cluster.Inhabited ∧
        cluster.InStep strtof asserts numLocalities start (received history) from
      follows.2.oneService follows.1
    induction run with
    | start => exact ⟨inhabited, .settled .start rfl settled⟩
    | step run taken ih =>
      obtain ⟨inhabited, inStep⟩ := ih
      exact (inStep.step inhabited taken).symm
  · intro plainEnv plain locality there service member root
    have quiet : System.Always Cluster.Quiet history cluster :=
      run.always (Q := fun (before : Cluster F) (_ : ClusterAction) => before.Plain)
        (Cluster.quiet_create nodes plainEnv created)
        (fun before allowed taken => before.step allowed taken) plain.2
    exact (quiet.1 locality there service member).balance root

/-- Whether a policy has been chosen under which the optimizer sends messages can be seen from the
last command. -/
instance decidablePlain (cluster : Cluster F) : Decidable cluster.Plain :=
  match last : cluster.command with
  | some (.setPolicy policy) =>
    decidable_of_iff (policy ∉ balancing) (by simp [Cluster.Plain, last])
  | some (.toggleNode _) => isTrue (by simp [Cluster.Plain, last])
  | some (.setSpeedExponent _) => isTrue (by simp [Cluster.Plain, last])
  | some (.setEfficiencyExponent _) => isTrue (by simp [Cluster.Plain, last])
  | some (.setPowerExponent _) => isTrue (by simp [Cluster.Plain, last])
  | none => isTrue (by simp [Cluster.Plain, last])

/-- One action of two localities, while the commands are plain. -/
def plainStep (cluster : Cluster Int) (action : ClusterAction) : Option (Cluster Int) :=
  if cluster.Plain then cluster.step strtol true 2 action else none

/-- The second of two nodes is switched off, and then the random policy is chosen. -/
def switchAndChoose : List ClusterAction :=
  [.receive (bytes "toggle_node 1"), .handle 1, .handle 0, .handle 0, .handle 1, .handle 0,
    .receive (bytes "set_scheduler random"), .handle 0]

/-- The first command has been executed by all services, and the second one by one of them. -/
theorem one_service_of_run_two : ∃ (begin cluster : Cluster Int) (start : Service Int)
    (history : List (Cluster Int × ClusterAction)),
    Cluster.create true 2 none ⟨1, 1, 1⟩ (fun _ => 0) = .ok begin ∧
      (broadcasting strtol true 2 begin).Run history cluster ∧
      cluster.localities.map (·.passed) = [some 1, some 0] ∧
      cluster.localities.map (·.active) = [true, false] ∧
      OneService strtol true 2 start (received history) cluster ∧
      ∀ locality ∈ cluster.localities, ∀ service ∈ locality.services,
        service.scheduler.isRoot = true → ∀ fuel, service.scheduler.balance fuel = .ok none := by
  have computed : (Cluster.create true 2 none (⟨1, 1, 1⟩ : TuningObjective Int)
      (fun _ => 0)).toOption.bind (fun begin => (switchAndChoose.foldlM plainStep begin).map
        fun cluster => (decide cluster.Plain, cluster.localities.map (·.passed),
          cluster.localities.map (·.active))) =
      some (true, [some 1, some 0], [true, false]) := by decide +kernel
  obtain ⟨begin, begun, computed⟩ := Option.bind_eq_some_iff.mp computed
  obtain ⟨cluster, computed, shape⟩ := Option.map_eq_some_iff.mp computed
  obtain ⟨last, passed, active⟩ : cluster.Plain ∧ cluster.localities.map (·.passed) =
      [some 1, some 0] ∧ cluster.localities.map (·.active) = [true, false] := by simpa using shape
  have created : Cluster.create true 2 none ⟨1, 1, 1⟩ (fun _ => 0) = .ok begin :=
    eq_ok_of_toOption begun
  have steps {cluster cluster' : Cluster Int} {action : ClusterAction}
      (taken : plainStep cluster action = some cluster') : cluster.Plain ∧
        (broadcasting strtol true 2 begin).step cluster action cluster' := by
    unfold plainStep at taken
    split at taken
    · exact ⟨‹_›, taken⟩
    · cases taken
  have begins : (broadcasting strtol true 2 begin).Run [] begin := .start
  obtain ⟨history, run, meets, -⟩ := begins.exists_meets_of_foldlM steps switchAndChoose
    (by simp [System.Meets]) computed
  obtain ⟨⟨one, -, follows⟩, quiet⟩ := one_service_of_run (by decide) created run
  exact ⟨begin, cluster, one, history, created, run, passed, active, follows,
    quiet (by simp) ⟨last, meets⟩⟩

end Dashboard

end AllScale
