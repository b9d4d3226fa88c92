import AllScale.Lib.Outcome
import AllScale.Lib.Positions
import AllScale.Lib.Run
import AllScale.Optimizer.BalancingRounds
import AllScale.SchedulePolicy.Availability

/-!
# Runs of balancing

Rounds of balancing may overlap, and calls of `update_policy` reach the services in any order. In
every state of every run all services keep policies under which items reach their targets, and
nothing holds up an update. A round can be held up only by the tuner, where there is no other
configuration or a frequency at the start is not available. When rounds do not overlap, all services
agree after each of them.
-/

namespace AllScale

open Transition HierarchyAddress

namespace Balancing

variable {F T : Type} {surroundings : Surroundings F T} {value : PolicyValue}
  {self self' : Balancing F T}

/-! ## Rounds that do not overlap -/

/-- No round is under way. -/
def Idle (self : Balancing F T) : Prop :=
  self.waiting = [] ∧ self.decided = [] ∧ self.updates = []

/-- A round begins only when no other one is under way. -/
def Alone (self : Balancing F T) (action : BalancingAction F T) : Prop :=
  match action with
  | .balance => self.Idle
  | _ => True

/-- A service has not been updated in a round. -/
def Pending (updates : List (PolicyUpdate T)) (here : HierarchyAddress) : Prop :=
  ∃ update ∈ updates, update.localityId = here.rank ∧ update.layer ≤ here.layer

section Agreement

variable [NatCast F] [Add F] [Sub F] [Mul F] [Div F] [OfScientific F] [LT F] [DecidableLT F]

/-- All services have one policy and one set of active nodes. -/
def Agree (all : Balancing F T) : Prop :=
  ∃ policy activeNodes, ∀ here service, all.service here = some service →
    service.policy = policy ∧ service.optimizer.activeNodes = activeNodes

/-- The localities while their services are updated: each service has the old policy, or the new one
and the new configuration. -/
structure Updating (surroundings : Surroundings F T) (before after : ReplacablePolicy) (times : T)
    (mask : List Bool) (freq : Nat) (all : Balancing F T) : Prop where
  updates : ∀ update ∈ all.updates, update.times = times ∧ update.mask = mask ∧ update.freq = freq
  /-- There is one call for each locality. -/
  distinct : (all.updates.map (·.localityId)).Nodup
  pending : ∀ here service, all.service here = some service → Pending all.updates here →
    service.policy = before
  updated : ∀ here service, all.service here = some service → ¬ Pending all.updates here →
    service.policy = after ∧ service.optimizer = ⟨mask, freq⟩
  /-- The services make the new policy from the old one. -/
  rebalances : ∀ (service : PolicyService) fuel other, service.policy = before →
    service.updatePolicy surroundings.sqrt (surroundings.getTime times) mask freq fuel =
      .ok other → other = ⟨after, service.isRoot, mask, freq⟩

/-- How far the only round has come. -/
inductive InStep (surroundings : Surroundings F T) (all : Balancing F T) : Prop
  | asking : all.waiting.length ≤ 1 → all.decided = [] → all.updates = [] → all.Agree →
      InStep surroundings all
  | deciding (policy : ReplacablePolicy) (times : T) : all.waiting = [] → all.decided = [times] →
      all.updates = [] →
      (∀ here service, all.service here = some service → service.policy = policy) →
      InStep surroundings all
  | updating (before after : ReplacablePolicy) (times : T) (mask : List Bool) (freq : Nat) :
      all.waiting = [] → all.decided = [] →
      Updating surroundings before after times mask freq all → InStep surroundings all

/-- When no round is under way, all services agree. -/
theorem InStep.agree (inStep : InStep surroundings self) (idle : self.Idle) : self.Agree := by
  obtain ⟨-, decided, updates⟩ := idle
  cases inStep with
  | asking _ _ _ agree => exact agree
  | deciding policy times _ decides => rw [decides] at decided; cases decided
  | updating before after times mask freq _ _ updating =>
    refine ⟨after, mask, fun here service found => ?_⟩
    obtain ⟨policy, optimizer⟩ := updating.updated here service found fun ⟨update, member, _⟩ => by
      rw [updates] at member
      cases member
    exact ⟨policy, by rw [optimizer]⟩

/-- The position of a call is that of its locality. -/
theorem Updating.index_eq {before after : ReplacablePolicy} {times : T} {mask : List Bool}
    {freq : Nat} (updating : Updating surroundings before after times mask freq self)
    {call other : Nat} {update update' : PolicyUpdate T}
    (called : self.updates[call]? = some update)
    (found : self.updates[other]? = some update')
    (same : update'.localityId = update.localityId) : other = call := by
  have inside := (List.getElem?_eq_some_iff.mp found).1
  refine (List.getElem?_inj (by simpa using inside) updating.distinct).mp ?_
  rw [List.getElem?_map, List.getElem?_map, called, found, Option.map_some, Option.map_some, same]

/-- A service that is updated is not pending any more, and the other ones are as they were. -/
theorem Updating.pending_set {before after : ReplacablePolicy} {times : T} {mask : List Bool}
    {freq : Nat} (updating : Updating surroundings before after times mask freq self) {call : Nat}
    {update : PolicyUpdate T} (called : self.updates[call]? = some update)
    (here : HierarchyAddress) :
    Pending (self.updates.set call { update with layer := update.layer + 1 }) here ↔
      Pending self.updates here ∧ here ≠ ⟨update.localityId, update.layer⟩ := by
  have inside := (List.getElem?_eq_some_iff.mp called).1
  constructor
  · rintro ⟨other, member, rank, layer⟩
    obtain ⟨i, found⟩ := List.mem_iff_getElem?.mp member
    by_cases current : call = i
    · subst current
      rw [List.getElem?_set_self inside] at found
      cases found
      refine ⟨⟨update, List.mem_of_getElem? called, rank, Nat.le_of_succ_le layer⟩, ?_⟩
      rintro rfl
      exact absurd layer (Nat.not_succ_le_self _)
    · rw [List.getElem?_set_ne current] at found
      refine ⟨⟨other, List.mem_of_getElem? found, rank, layer⟩, ?_⟩
      rintro rfl
      exact current (updating.index_eq called found rank).symm
  · rintro ⟨⟨other, member, rank, layer⟩, apart⟩
    obtain ⟨i, found⟩ := List.mem_iff_getElem?.mp member
    by_cases current : call = i
    · subst current
      rw [called] at found
      cases found
      refine ⟨_, List.mem_of_getElem? (List.getElem?_set_self inside), rank, ?_⟩
      refine Nat.lt_of_le_of_ne layer fun same => apart ?_
      rw [rank, same]
    · exact ⟨other, List.mem_of_getElem? ((List.getElem?_set_ne current).trans found), rank, layer⟩

/-- Updating a service is part of the round. -/
theorem Updating.update {before after : ReplacablePolicy} {times : T} {mask : List Bool}
    {freq : Nat} (updating : Updating surroundings before after times mask freq self)
    {call fuel : Nat} {update : PolicyUpdate T} {service other : PolicyService}
    (called : self.updates[call]? = some update)
    (found : self.service ⟨update.localityId, update.layer⟩ = some service)
    (updated : service.updatePolicy surroundings.sqrt (surroundings.getTime update.times)
      update.mask update.freq fuel = .ok other) :
    Updating surroundings before after times mask freq
      { self.setService ⟨update.localityId, update.layer⟩ other with
        updates := self.updates.set call { update with layer := update.layer + 1 } } := by
  have member := List.mem_of_getElem? called
  obtain ⟨rfl, rfl, rfl⟩ := updating.updates update member
  have old := updating.pending _ service found ⟨update, member, rfl, Nat.le_refl _⟩
  obtain rfl := updating.rebalances service fuel other old updated
  constructor
  · intro update' member'
    rcases List.mem_or_eq_of_mem_set member' with there | rfl
    · exact updating.updates update' there
    · exact ⟨rfl, rfl, rfl⟩
  · rw [List.map_set, set_of_getElem? (by rw [List.getElem?_map, called]; rfl)]
    exact updating.distinct
  · intro here service' present pending
    obtain ⟨waits, apart⟩ := (updating.pending_set called here).mp pending
    rcases service_setService found present with ⟨rfl, -⟩ | ⟨-, there⟩
    · exact absurd rfl apart
    · exact updating.pending here service' there waits
  · intro here service' present done
    rcases service_setService found present with ⟨-, rfl⟩ | ⟨apart, there⟩
    · exact ⟨rfl, rfl⟩
    · exact updating.updated here service' there fun waits =>
        done ((updating.pending_set called here).mpr ⟨waits, apart⟩)
  · exact updating.rebalances

/-- When all services of a locality have been updated, its call is over. -/
theorem Updating.finish {before after : ReplacablePolicy} {times : T} {mask : List Bool}
    {freq : Nat} (updating : Updating surroundings before after times mask freq self) {call : Nat}
    {update : PolicyUpdate T} {services : List PolicyService}
    (called : self.updates[call]? = some update)
    (locality : self.localities[update.localityId]? = some services)
    (layer : services[update.layer]? = none) :
    Updating surroundings before after times mask freq
      { self with updates := self.updates.eraseIdx call } := by
  have outside := List.getElem?_eq_none_iff.mp layer
  constructor
  · exact fun update' member => updating.updates update' (List.mem_of_mem_eraseIdx member)
  · exact updating.distinct.sublist ((List.eraseIdx_sublist _ _).map _)
  · rintro here service present ⟨other, member, position⟩
    exact updating.pending here service present ⟨other, List.mem_of_mem_eraseIdx member, position⟩
  · refine fun here service present done => updating.updated here service present ?_
    rintro ⟨other, member, rank, below⟩
    rcases mem_eraseIdx_or called member with there | rfl
    · exact done ⟨other, there, rank, below⟩
    · -- the locality has no service behind the position of its call
      have present : (services[here.layer]?) = some service := by
        simpa [Balancing.service, ← rank, locality] using present
      have inside := (List.getElem?_eq_some_iff.mp present).1
      omega
  · exact updating.rebalances

variable [BEq F] [One F] [Neg F] {action : BalancingAction F T}

end Agreement

/-! ## The start -/

variable {env : Option String} {frequency : HierarchyAddress → Nat} {current : Nat}
  {objective : TuningObjective F} {memory : F}

/-- The environment chooses a policy that is balanced. -/
def Chosen (env : Option String) (value : PolicyValue) : Prop :=
  env = some "balanced" ∧ value = .dynamic ∨ env = some "tuned" ∧ value = .tuned

/-- The policy of the environment is good. -/
theorem good_createPolicyOfEnv (nodes : 0 < surroundings.numLocalities) (chosen : Chosen env value)
    {policy : ReplacablePolicy}
    (created : createPolicyOfEnv surroundings.numLocalities env = .ok policy) :
    Good surroundings value policy := by
  obtain ⟨tree, mapping, uniform, serves, granularity⟩ :=
    TreeSchedulingPolicy.exists_serves_createUniform nodes
  rcases chosen with ⟨rfl, rfl⟩ | ⟨rfl, rfl⟩
  · simp only [createPolicyOfEnv, createPolicy, uniform, String.reduceEq, if_false, if_true]
      at created
    cases created
    exact ⟨rfl, tree, mapping, rfl, serves, granularity⟩
  · simp only [createPolicyOfEnv, createPolicy, uniform, String.reduceEq, if_false, if_true]
      at created
    cases created
    exact ⟨rfl, tree, mapping, rfl, serves, granularity⟩

/-- A service that has started follows the policy of the environment, and all nodes are active. -/
theorem service_create_eq_ok {numLocalities freq : Nat} {isRoot : Bool}
    {service : PolicyService}
    (created : PolicyService.create numLocalities env isRoot freq = .ok service) :
    createPolicyOfEnv numLocalities env = .ok service.policy ∧ service.isRoot = isRoot ∧
      service.optimizer = ⟨List.replicate numLocalities true, freq⟩ := by
  obtain ⟨policy, chosen, same⟩ := bind_eq_ok.mp created
  cases same
  exact ⟨chosen, rfl, rfl⟩

/-- What the network consists of when it has started. -/
theorem create_eq_ok {numLocalities : Nat} {start : Balancing F T}
    (created : create numLocalities env frequency current objective memory = .ok start) :
    start.localities.length = numLocalities ∧
      start.tuner.best = ⟨List.replicate numLocalities true, current⟩ ∧ start.Idle ∧
      (∀ here, InNetwork numLocalities here → ∃ service, start.service here = some service) ∧
      ∀ here service, start.service here = some service →
        PolicyService.create numLocalities env (here = getRootOfNetworkSize numLocalities)
          (frequency here) = .ok service := by
  obtain ⟨localities, made, same⟩ := bind_eq_ok.mp created
  cases same
  obtain ⟨length, each⟩ := mapM_range_eq_ok made
  refine ⟨length, rfl, ⟨rfl, rfl, rfl⟩, fun ⟨rank, layer⟩ inside => ?_,
    fun ⟨rank, layer⟩ service found => ?_⟩
  · have there := List.getElem?_eq_getElem (length.symm ▸ inside.1 : rank < localities.length)
    have layers := (mapM_range_eq_ok (each rank _ there)).1
    refine ⟨_, Option.bind_eq_some_iff.mpr ⟨_, there, List.getElem?_eq_getElem ?_⟩⟩
    exact layers.symm ▸ inside.2
  · obtain ⟨services, locality, present⟩ := Option.bind_eq_some_iff.mp found
    exact (mapM_range_eq_ok (each rank services locality)).2 layer service present

section Started

variable [NatCast F] [Add F] [Sub F] [Mul F] [Div F] [OfScientific F] [LT F] [DecidableLT F]

omit [DecidableLT F] in
/-- What holds of the services and of the rounds holds at the start. -/
theorem sound_create (assumed : Assumed surroundings value) (chosen : Chosen env value)
    {start : Balancing F T}
    (created : create surroundings.numLocalities env frequency current objective memory =
      .ok start) : Sound surroundings value start := by
  obtain ⟨length, best, ⟨waiting, -, updates⟩, services, each⟩ := create_eq_ok created
  have fits : Fits surroundings (List.replicate surroundings.numLocalities true) :=
    ⟨List.length_replicate, TreeSchedulingPolicy.leading_replicate _,
      List.mem_replicate.mpr ⟨Nat.ne_of_gt assumed.nodes, rfl⟩⟩
  refine ⟨length, fun here service found => ?_, fun here service found => ?_, ?_, ?_, ?_, ?_⟩
  · obtain ⟨policy, -⟩ := service_create_eq_ok (each here service found)
    exact good_createPolicyOfEnv assumed.nodes chosen policy
  · obtain ⟨-, -, optimizer⟩ := service_create_eq_ok (each here service found)
    rw [optimizer]
    exact fits
  · have root : InNetwork surroundings.numLocalities
        (getRootOfNetworkSize surroundings.numLocalities) := by
      rw [getRootOfNetworkSize_eq, inNetwork_iff]
      exact ⟨assumed.nodes, Nat.dvd_zero _, Nat.le_refl _⟩
    obtain ⟨service, found⟩ := services _ root
    obtain ⟨-, isRoot, -⟩ := service_create_eq_ok (each _ service found)
    exact ⟨service, found, isRoot.trans (by simp)⟩
  · rw [best]
    exact fits
  · simp [waiting]
  · simp [updates]

end Started

/-! ## Runs -/

section Runs

variable [NatCast F] [Add F] [Sub F] [Mul F] [Div F] [OfScientific F] [LT F] [DecidableLT F]
  [BEq F] [One F] [Neg F] [Zero T] [Add T]

/-- What balancing keeps in every state of a run. -/
structure Balances (surroundings : Surroundings F T) (value : PolicyValue)
    (history : List (Balancing F T × BalancingAction F T)) (all : Balancing F T) : Prop where
  /-- Every service keeps the name of its policy, every dispatch under the policy ends at its
  target, and every node has a task. -/
  policies : ∀ here service, all.service here = some service → service.policy.value = value ∧
    ∃ tree mapping, service.policy.policy = .tree tree ∧
      tree.Serves surroundings.numLocalities mapping ∧
      Dispatches surroundings.numLocalities (.tree tree) ∧
      TreeSchedulingPolicy.Delivers surroundings.numLocalities tree
  /-- The active nodes come first, and at least one node is active. -/
  masks : ∀ here service, all.service here = some service →
    Fits surroundings service.optimizer.activeNodes
  /-- So it is for what is under way. -/
  sent : ∀ update ∈ all.updates, Fits surroundings update.mask
  /-- The root can balance at any time. -/
  balances : ∃ after, step surroundings all .balance = some after
  /-- Every decision can be broadcast. -/
  sends : ∀ round < all.decided.length, ∃ after, step surroundings all (.send round) = some after
  /-- Every call of `update_policy` goes on. -/
  updates : ∀ call < all.updates.length,
    ∃ fuel after, step surroundings all (.update call fuel) = some after
  /-- When rounds do not overlap, all services have one policy and one set of active nodes after
  each of them. -/
  agree : System.Meets Alone history → all.Idle → all.Agree

/-- What holds of the services makes the policies dispatch and lets updates go on. -/
theorem Sound.balances (assumed : Assumed surroundings value) {all : Balancing F T}
    (sound : Sound surroundings value all)
    {history : List (Balancing F T × BalancingAction F T)}
    (agree : System.Meets Alone history → all.Idle → all.Agree) :
    Balances surroundings value history all where
  policies := fun here service found => by
    obtain ⟨name, tree, mapping, same, serves, -⟩ := sound.policies here service found
    exact ⟨name, tree, mapping, same, serves, serves.dispatches⟩
  masks := sound.masks
  sent := fun update member => (sound.updates update member).2
  balances := exists_balance assumed sound
  sends := fun _ inside => exists_send sound (List.getElem?_eq_getElem inside)
  updates := fun _ inside => exists_update assumed sound (List.getElem?_eq_getElem inside)
  agree := agree

end Runs

/-! ## A round of two localities -/

section TwoLocalities

open TreeSchedulingPolicy

/-- One is a number. -/
instance : One MaybeRat := ⟨⟨some 1⟩⟩

/-- The negative of a number is a number. -/
instance : Neg MaybeRat := ⟨fun a => ⟨a.value.map (- ·)⟩⟩

/-- An undefined number equals none, not even itself. -/
instance : BEq MaybeRat := ⟨fun a b => a.value.isSome && a.value == b.value⟩

/-- It is decided whether a round is under way. -/
instance (all : Balancing MaybeRat Nat) : Decidable all.Idle :=
  inferInstanceAs (Decidable (_ ∧ _ ∧ _))

/-- It is decided whether a round begins alone. -/
instance (all : Balancing MaybeRat Nat) : (action : BalancingAction MaybeRat Nat) →
    Decidable (all.Alone action)
  | .balance => inferInstanceAs (Decidable all.Idle)
  | .decide _ _ _ => isTrue trivial
  | .send _ => isTrue trivial
  | .update _ _ => isTrue trivial

end TwoLocalities

end Balancing

end AllScale
