import AllScale.Lib.Outcome
import AllScale.Optimizer.Balancing

/-!
# Steps of balancing

In every state that balancing reaches all services keep policies that serve all nodes, and
configurations whose active nodes come first; so the next step of a round is there whatever the
localities answer, as long as the tuner finds the frequencies that it goes on from.
-/

namespace AllScale

open Transition HierarchyAddress

namespace Balancing

variable {F T : Type} {surroundings : Surroundings F T} {value : PolicyValue}
  {self self' : Balancing F T} {here there : HierarchyAddress} {old new : PolicyService}

/-! ## What holds of the services -/

/-- What holds of the services and of the rounds. -/
structure Sound (surroundings : Surroundings F T) (value : PolicyValue) (all : Balancing F T) :
    Prop where
  length : all.localities.length = surroundings.numLocalities
  policies : ∀ here service, all.service here = some service →
    Good surroundings value service.policy
  masks : ∀ here service, all.service here = some service →
    Fits surroundings service.optimizer.activeNodes
  root : ∃ service, all.service (getRootOfNetworkSize surroundings.numLocalities) = some service ∧
    service.isRoot = true
  /-- The tuner remembers a configuration that it may choose. -/
  best : Fits surroundings all.tuner.best.nodeMask
  /-- Rounds in which the tuner may be asked begin only under its policy. -/
  waiting : true ∈ all.waiting → value = .tuned
  updates : ∀ update ∈ all.updates, update.localityId < surroundings.numLocalities ∧
    Fits surroundings update.mask

/-- What holds stays when a service is set. -/
theorem Sound.setService (sound : Sound surroundings value self)
    (found : self.service here = some old) (good : Good surroundings value new.policy)
    (fits : Fits surroundings new.optimizer.activeNodes) (same : new.isRoot = old.isRoot) :
    Sound surroundings value (self.setService here new) where
  length := (List.length_modify _ _ _).trans sound.length
  policies := fun there service present => by
    rcases service_setService found present with ⟨rfl, rfl⟩ | ⟨-, before⟩
    · exact good
    · exact sound.policies there service before
  masks := fun there service present => by
    rcases service_setService found present with ⟨rfl, rfl⟩ | ⟨-, before⟩
    · exact fits
    · exact sound.masks there service before
  root := by
    obtain ⟨service, present, isRoot⟩ := sound.root
    by_cases current : getRootOfNetworkSize surroundings.numLocalities = here
    · subst current
      rw [present] at found
      cases found
      exact ⟨new, service_setService_self present, same.trans isRoot⟩
    · exact ⟨service, (service_setService_ne current).trans present, isRoot⟩
  best := sound.best
  waiting := sound.waiting
  updates := sound.updates

/-- The frequencies from which the tuner goes on are available: no service but the root looks at its
frequency. -/
structure Available (surroundings : Surroundings F T) (all : Balancing F T) : Prop where
  root : ∀ service,
    all.service (getRootOfNetworkSize surroundings.numLocalities) = some service →
    service.optimizer.activeFrequency ∈ surroundings.freqs
  best : all.tuner.best.frequency ∈ surroundings.freqs
  updates : ∀ update ∈ all.updates, update.freq ∈ surroundings.freqs

/-- The frequency of the root stays available when a service is set. -/
theorem Available.setService (available : Available surroundings self)
    (found : self.service here = some old)
    (frequency : new.optimizer.activeFrequency ∈ surroundings.freqs) :
    Available surroundings (self.setService here new) where
  root := fun service present => by
    rcases service_setService found present with ⟨-, rfl⟩ | ⟨-, before⟩
    · exact frequency
    · exact available.root service before
  best := available.best
  updates := available.updates

/-! ## Loops -/

section Loops

variable [NatCast F] [Add F] [Sub F] [Mul F] [Div F]

end Loops

/-! ## Steps -/

section Steps

variable [NatCast F] [Add F] [Sub F] [Mul F] [Div F] [OfScientific F] [LT F] [DecidableLT F]
  [BEq F] [One F] [Neg F] {action : BalancingAction F T}

/-- What an action changes. -/
inductive Change (surroundings : Surroundings F T) (self : Balancing F T) :
    BalancingAction F T → Balancing F T → Prop
  /-- A round begins. -/
  | begin {root : PolicyService} {tuned : Bool} :
      self.service (getRootOfNetworkSize surroundings.numLocalities) = some root →
      root.balance 0 = .ok (some (.balance tuned)) →
      Change surroundings self .balance { self with waiting := self.waiting ++ [tuned] }
  /-- The policy is not balanced. -/
  | idle : Change surroundings self .balance self
  /-- A round keeps the configuration. -/
  | keep {round fuel : Nat} {tuned : Bool} {state : List (NodeState F T)} {times : T} :
      self.waiting[round]? = some tuned →
      Change surroundings self (.decide round state fuel) { self with
        waiting := self.waiting.eraseIdx round
        decided := self.decided ++ [times] }
  /-- A round asks the tuner for the configuration. -/
  | tune {round fuel : Nat} {state : List (NodeState F T)} {times : T} {root : PolicyService}
      {score : F} {res : TunerConfiguration} {tuner : SimpleCoordinateDescent F} :
      self.waiting[round]? = some true →
      self.service (getRootOfNetworkSize surroundings.numLocalities) = some root →
      self.tuner.next surroundings.freqs
        ⟨root.optimizer.activeNodes, root.optimizer.activeFrequency⟩ score self.objective fuel =
          some (res, tuner) →
      Change surroundings self (.decide round state fuel)
        { self.setService (getRootOfNetworkSize surroundings.numLocalities)
            { root with optimizer := ⟨res.nodeMask, res.frequency⟩ } with
          tuner := tuner
          waiting := self.waiting.eraseIdx round
          decided := self.decided ++ [times] }
  | send {round : Nat} {times : T} {root : PolicyService} :
      self.decided[round]? = some times →
      self.service (getRootOfNetworkSize surroundings.numLocalities) = some root →
      Change surroundings self (.send round) { self with
        decided := self.decided.eraseIdx round
        updates := self.updates ++ (List.range self.localities.length).map fun localityId =>
          ⟨localityId, times, root.optimizer.activeNodes, root.optimizer.activeFrequency, 0⟩ }
  /-- A service is updated. -/
  | update {call fuel : Nat} {update : PolicyUpdate T} {service after : PolicyService} :
      self.updates[call]? = some update →
      self.service ⟨update.localityId, update.layer⟩ = some service →
      service.updatePolicy surroundings.sqrt (surroundings.getTime update.times) update.mask
        update.freq fuel = .ok after →
      Change surroundings self (.update call fuel)
        { self.setService ⟨update.localityId, update.layer⟩ after with
          updates := self.updates.set call { update with layer := update.layer + 1 } }
  /-- All services of a locality have been updated. -/
  | finish {call fuel : Nat} {update : PolicyUpdate T} {services : List PolicyService} :
      self.updates[call]? = some update → self.localities[update.localityId]? = some services →
      services[update.layer]? = none →
      Change surroundings self (.update call fuel)
        { self with updates := self.updates.eraseIdx call }

omit [BEq F] [One F] [Neg F] in
/-- A service that is updated has a good policy again, and the configuration that was sent. -/
theorem Sound.updated (assumed : Assumed surroundings value) (sound : Sound surroundings value self)
    {call fuel : Nat} {update : PolicyUpdate T} {service after : PolicyService}
    (called : self.updates[call]? = some update)
    (found : self.service ⟨update.localityId, update.layer⟩ = some service)
    (updated : service.updatePolicy surroundings.sqrt (surroundings.getTime update.times)
      update.mask update.freq fuel = .ok after) :
    ∃ next, Good surroundings value next ∧
      after = ⟨next, service.isRoot, update.mask, update.freq⟩ := by
  obtain ⟨-, fits⟩ := sound.updates _ (List.mem_of_getElem? called)
  obtain ⟨next, good, updates⟩ :=
    (sound.policies _ _ found).exists_updatePolicy assumed fits update.freq update.times
  exact ⟨next, good, (updates service rfl).2 fuel after updated⟩

/-- Every action keeps what holds of the services and of the rounds. -/
theorem sound_change (assumed : Assumed surroundings value) (sound : Sound surroundings value self)
    (change : Change surroundings self action self') : Sound surroundings value self' := by
  cases change with
  | @begin root tuned found balances =>
    refine ⟨sound.length, sound.policies, sound.masks, sound.root, sound.best, fun member => ?_,
      sound.updates⟩
    rcases List.mem_append.mp member with old | new
    · exact sound.waiting old
    · obtain rfl := List.mem_singleton.mp new
      obtain ⟨service, present, isRoot⟩ := sound.root
      rw [found] at present
      cases present
      have name := (sound.policies _ _ found).1
      rw [balance_eq isRoot (name ▸ assumed.balanced)] at balances
      simp only [Except.ok.injEq, Option.some.injEq, BalanceCall.balance.injEq,
        decide_eq_true_eq] at balances
      exact name.symm.trans balances
  | idle => exact sound
  | keep =>
    exact ⟨sound.length, sound.policies, sound.masks, sound.root, sound.best,
      fun member => sound.waiting (List.mem_of_mem_eraseIdx member), sound.updates⟩
  | @tune round fuel state times root score res tuner waits found returned =>
    have tuned := sound.waiting (List.mem_of_getElem? waits)
    have before := sound.masks _ root found
    obtain ⟨kept, -, fits⟩ := adjacent_next sound.best before returned
    have set : Sound surroundings value
        (self.setService _ { root with optimizer := ⟨res.nodeMask, res.frequency⟩ }) :=
      sound.setService found (sound.policies _ root found) fits rfl
    exact ⟨set.length, set.policies, set.masks, set.root,
      kept ▸ fits_remembered sound.best before _ _, fun _ => tuned, set.updates⟩
  | send decided found =>
    refine ⟨sound.length, sound.policies, sound.masks, sound.root, sound.best, sound.waiting,
      fun update member => ?_⟩
    rcases List.mem_append.mp member with old | new
    · exact sound.updates update old
    · obtain ⟨localityId, inside, rfl⟩ := List.mem_map.mp new
      rw [sound.length] at inside
      exact ⟨List.mem_range.mp inside, sound.masks _ _ found⟩
  | @update call fuel update service after called found updated =>
    obtain ⟨inside, fits⟩ := sound.updates _ (List.mem_of_getElem? called)
    obtain ⟨next, good, rfl⟩ := sound.updated assumed called found updated
    have set : Sound surroundings value (self.setService ⟨update.localityId, update.layer⟩
        ⟨next, service.isRoot, update.mask, update.freq⟩) := sound.setService found good fits rfl
    refine ⟨set.length, set.policies, set.masks, set.root, set.best, set.waiting,
      fun update member => ?_⟩
    rcases List.mem_or_eq_of_mem_set member with old | rfl
    · exact sound.updates update old
    · exact ⟨inside, fits⟩
  | finish called locality layer =>
    exact ⟨sound.length, sound.policies, sound.masks, sound.root, sound.best, sound.waiting,
      fun update member => sound.updates update (List.mem_of_mem_eraseIdx member)⟩

variable [Zero T] [Add T]

/-- What the continuation of a round does. -/
theorem decide_change {round fuel : Nat} {tuned : Bool} {state : List (NodeState F T)}
    (waits : self.waiting[round]? = some tuned)
    (decided : decide surroundings { self with waiting := self.waiting.eraseIdx round } tuned state
      fuel = some self') : Change surroundings self (.decide round state fuel) self' := by
  simp only [decide, Option.bind_eq_bind, Option.bind_eq_some_iff] at decided
  obtain ⟨root, found, var, -, decided⟩ := decided
  split at decided
  · rename_i both
    obtain ⟨rfl, -⟩ := both
    simp only [tune, Option.bind_eq_bind, Option.bind_eq_some_iff] at decided
    obtain ⟨chosen, ⟨sums, -, result, returned, tuned⟩, same⟩ := decided
    cases tuned
    cases same
    exact .tune waits found returned
  · cases decided
    exact .keep waits

/-- Every action is one of these changes. -/
theorem step_change (taken : step surroundings self action = some self') :
    Change surroundings self action self' := by
  cases action with
  | balance =>
    simp only [step, Option.bind_eq_bind, Option.bind_eq_some_iff] at taken
    obtain ⟨root, found, taken⟩ := taken
    split at taken
    · rename_i tuned balances
      cases taken
      exact .begin found balances
    · cases taken
      exact .idle
    · cases taken
  | decide round state fuel =>
    simp only [step, Option.bind_eq_bind, Option.bind_eq_some_iff] at taken
    obtain ⟨tuned, waits, taken⟩ := taken
    split at taken
    · exact decide_change waits taken
    · cases taken
  | send round =>
    simp only [step, Option.bind_eq_bind, Option.bind_eq_some_iff] at taken
    obtain ⟨times, found, root, service, same⟩ := taken
    cases same
    exact .send found service
  | update call fuel =>
    simp only [step, proceed, Option.bind_eq_bind, Option.bind_eq_some_iff] at taken
    obtain ⟨update, found, services, locality, taken⟩ := taken
    split at taken
    · rename_i service layer
      split at taken
      · rename_i after updated
        cases taken
        refine .update found ?_ updated
        simp only [Balancing.service, locality, Option.bind_eq_bind, Option.bind_some]
        exact layer
      · cases taken
    · rename_i layer
      cases taken
      exact .finish found locality layer

/-! ## Nothing holds up a round -/

/-- The root can balance. -/
theorem exists_balance (assumed : Assumed surroundings value)
    (sound : Sound surroundings value self) :
    ∃ after, step surroundings self .balance = some after := by
  obtain ⟨root, found, isRoot⟩ := sound.root
  have name := (sound.policies _ _ found).1
  simp only [step, found, Option.bind_eq_bind, Option.bind_some,
    balance_eq isRoot (name ▸ assumed.balanced)]
  exact ⟨_, rfl⟩

/-- A decision can be broadcast. -/
theorem exists_send (sound : Sound surroundings value self) {round : Nat} {times : T}
    (found : self.decided[round]? = some times) :
    ∃ after, step surroundings self (.send round) = some after := by
  obtain ⟨root, present, -⟩ := sound.root
  simp only [step, found, present, Option.bind_eq_bind, Option.bind_some]
  exact ⟨_, rfl⟩

/-- A call of `update_policy` can go on. -/
theorem exists_update (assumed : Assumed surroundings value)
    (sound : Sound surroundings value self) {call : Nat} {update : PolicyUpdate T}
    (called : self.updates[call]? = some update) :
    ∃ fuel after, step surroundings self (.update call fuel) = some after := by
  obtain ⟨inside, fits⟩ := sound.updates _ (List.mem_of_getElem? called)
  rw [← sound.length] at inside
  have locality := List.getElem?_eq_getElem inside
  generalize self.localities[update.localityId] = services at locality
  cases layer : services[update.layer]? with
  | none =>
    refine ⟨0, ?_⟩
    simp only [step, called, proceed, locality, layer, Option.bind_eq_bind, Option.bind_some]
    exact ⟨_, rfl⟩
  | some service =>
    have found : self.service ⟨update.localityId, update.layer⟩ = some service := by
      simp only [Balancing.service, locality, Option.bind_eq_bind, Option.bind_some]
      exact layer
    obtain ⟨next, -, updates⟩ :=
      (sound.policies _ _ found).exists_updatePolicy assumed fits update.freq update.times
    obtain ⟨fuel, updated⟩ := (updates service rfl).1
    refine ⟨fuel, ?_⟩
    simp only [step, called, proceed, locality, layer, Option.bind_eq_bind, Option.bind_some,
      updated]
    exact ⟨_, rfl⟩

end Steps

end Balancing

end AllScale
