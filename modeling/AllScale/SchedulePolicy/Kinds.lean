import AllScale.Lib.Outcome
import AllScale.Lib.Run
import AllScale.SchedulePolicy.Rebalance
import AllScale.SchedulePolicy.Uniform

/-!
# Kinds of policies

A locality keeps its scheduling policy together with the name under which it was chosen. Commands of
the dashboard and messages of the optimizer replace the policy, and most of them derive the new one
from the old one, which they cast to a tree policy without a check. The name tells whether the cast
is valid: `update_policy` and `balance` look at it, `apply_new_mapping` does not.
-/

namespace AllScale

open Transition

/-- `scheduling_policy` — an object of one of the classes that implement it. -/
inductive SchedulingPolicy where
  /-- `tree_scheduling_policy`. -/
  | tree (policy : TreeSchedulingPolicy)
  /-- `random_scheduling_policy`. -/
  | random (cutoffLevel : Nat) (root : HierarchyAddress)

/-- Why a handler does not return. -/
inductive Fault where
  /-- A `static_cast` to a class of which the object is not. -/
  | badCast
  /-- An assertion that does not hold, or an access outside of a container. -/
  | undefined
  deriving DecidableEq

/-- A value that is `none` when computing it is undefined. -/
def Fault.defined {α : Type} : Option α → Except Fault α
  | some value => .ok value
  | none => .error .undefined

/-! ## Policies from policies -/

namespace SchedulingPolicy

/-- The `static_cast` of a policy to `tree_scheduling_policy`. -/
def toTree : SchedulingPolicy → Except Fault TreeSchedulingPolicy
  | .tree policy => .ok policy
  | .random _ _ => .error .badCast

/-- `random_scheduling_policy::random_scheduling_policy` in a network of a size. -/
def createRandom (numLocalities : Nat) : SchedulingPolicy :=
  .random numLocalities (HierarchyAddress.getRootOfNetworkSize numLocalities)

/-- `tree_scheduling_policy::create_uniform` for the active nodes, at the default granularity. -/
def createUniform (mask : List Bool) : Except Fault SchedulingPolicy := do
  let granularity := max (ceilLog2 mask.length + 3) 5
  return .tree (← Fault.defined (TreeSchedulingPolicy.createUniformMask mask granularity))

/-- `tree_scheduling_policy::from_mapping`, with its cast. -/
def fromMapping (oldBase : SchedulingPolicy) (mapping : List Nat) :
    Except Fault SchedulingPolicy := do
  let old ← oldBase.toTree
  return .tree (← Fault.defined (old.fromMapping mapping))

variable {F : Type} [NatCast F] [Add F] [Sub F] [Mul F] [Div F] [OfScientific F] [LT F]
  [DecidableLT F]

/-- `tree_scheduling_policy::create_rebalanced`, with its cast. -/
def createRebalanced (sqrt : F → F) (oldBase : SchedulingPolicy) (getTime : TaskPath → F)
    (mask : List Bool) (fuel : Nat) : Except Fault SchedulingPolicy := do
  let old ← oldBase.toTree
  return .tree (← Fault.defined (old.createRebalanced sqrt getTime mask fuel))

end SchedulingPolicy

/-! ## Replaceable policies -/

/-- `replacable_policy::policy_value`. -/
inductive PolicyValue where
  /-- `static_`. -/
  | static
  /-- `dynamic`. -/
  | dynamic
  /-- `tuned`. -/
  | tuned
  /-- `ino`. -/
  | ino
  /-- `random`. -/
  | random
  /-- `truly_random`. -/
  | trulyRandom
  deriving DecidableEq

/-- `replacable_policy`. -/
structure ReplacablePolicy where
  /-- `value_`. -/
  value : PolicyValue
  /-- `policy_`. -/
  policy : SchedulingPolicy

/-- `create_policy`. -/
def createPolicy (numLocalities : Nat) (policy : String) : Except Fault ReplacablePolicy := do
  let uniform := SchedulingPolicy.createUniform (List.replicate numLocalities true)
  if policy = "uniform" then return ⟨.static, ← uniform⟩
  if policy = "balanced" then return ⟨.dynamic, ← uniform⟩
  if policy = "tuned" then return ⟨.tuned, ← uniform⟩
  if policy = "ino" then return ⟨.ino, ← uniform⟩
  if policy = "random" then return ⟨.random, SchedulingPolicy.createRandom numLocalities⟩
  return ⟨.static, ← uniform⟩

/-- `create_policy` for the environment variable, when it is set. -/
def createPolicyOfEnv (numLocalities : Nat) (env : Option String) : Except Fault ReplacablePolicy :=
  match env with
  | some env => createPolicy numLocalities env
  | none => createPolicy numLocalities "uniform"

/-! ## The service -/

/-- `global_optimizer` — what the handlers read and write of it. -/
structure GlobalOptimizer where
  /-- `active_nodes_`. -/
  activeNodes : List Bool
  /-- `active_frequency_`. -/
  activeFrequency : Nat

/-- `scheduler_service` — what its handlers for the policy read and write. -/
structure PolicyService where
  /-- `policy_`. -/
  policy : ReplacablePolicy
  /-- `is_root_`. -/
  isRoot : Bool
  /-- `optimizer_`. -/
  optimizer : GlobalOptimizer

/-- The call of the optimizer in `balance`. -/
inductive BalanceCall where
  /-- `global_optimizer::balance`. -/
  | balance (tuned : Bool)
  /-- `global_optimizer::balance_ino`. -/
  | balanceIno (oldMapping : List Nat)

namespace PolicyService

/-- The constructor of `scheduler_service`; the frequency of the optimizer is not initialised. -/
def create (numLocalities : Nat) (env : Option String) (isRoot : Bool) (frequency : Nat) :
    Except Fault PolicyService := do
  let policy ← createPolicyOfEnv numLocalities env
  return ⟨policy, isRoot, List.replicate numLocalities true, frequency⟩

/-- `scheduler_service::apply_new_mapping`. -/
def applyNewMapping (self : PolicyService) (newMapping : List Nat) :
    Except Fault PolicyService := do
  let policy ← self.policy.policy.fromMapping newMapping
  return { self with policy := { self.policy with policy := policy } }

/-- `scheduler_service::toggle_node`. -/
def toggleNode (self : PolicyService) (localityId : Nat) : Except Fault PolicyService := do
  if localityId ≥ self.optimizer.activeNodes.length then throw .undefined
  let optimizer := { self.optimizer with
    activeNodes := self.optimizer.activeNodes.modify localityId not }
  let policy ← SchedulingPolicy.createUniform optimizer.activeNodes
  if self.policy.value = .random then
    return { self with optimizer := optimizer, policy := ⟨.static, policy⟩ }
  else
    return { self with optimizer := optimizer, policy := { self.policy with policy := policy } }

/-- `scheduler_service::set_policy`. -/
def setPolicy (numLocalities : Nat) (self : PolicyService) (policy : String) :
    Except Fault PolicyService := do
  let pol ← createPolicy numLocalities policy
  let activeNodes := List.replicate self.optimizer.activeNodes.length true
  return { self with
    policy := pol
    optimizer := { self.optimizer with activeNodes := activeNodes } }

/-- `scheduler_service::balance`, with the call it makes. -/
def balance (self : PolicyService) (fuel : Nat) : Except Fault (Option BalanceCall) := do
  if ¬ self.isRoot then throw .undefined
  match self.policy.value with
  | .dynamic => return some (.balance false)
  | .tuned => return some (.balance true)
  | .ino =>
    let old ← self.policy.policy.toTree
    return some (.balanceIno (← Fault.defined (old.taskDistributionMapping fuel)))
  | _ => return none

variable {F : Type} [NatCast F] [Add F] [Sub F] [Mul F] [Div F] [OfScientific F] [LT F]
  [DecidableLT F]

/-- `scheduler_service::update_policy`. -/
def updatePolicy (sqrt : F → F) (self : PolicyService) (times : TaskPath → F) (mask : List Bool)
    (freq fuel : Nat) : Except Fault PolicyService := do
  if ¬ (self.policy.value = .dynamic ∨ self.policy.value = .tuned) then return self
  let newPolicy ← self.policy.policy.createRebalanced sqrt times mask fuel
  return { self with
    optimizer := { activeNodes := mask, activeFrequency := freq }
    policy := { self.policy with policy := newPolicy } }

/-! ## Runs -/

/-- What happens to the policy of a locality. -/
inductive Action (F : Type) where
  /-- A command of the dashboard chooses a policy. -/
  | setPolicy (policy : String)
  /-- A command of the dashboard switches a node on or off. -/
  | toggleNode (localityId : Nat)
  /-- A message of the optimizer brings new task times. -/
  | updatePolicy (times : TaskPath → F) (mask : List Bool) (freq : Nat)
  /-- A message of the optimizer brings a new mapping. -/
  | applyNewMapping (newMapping : List Nat)
  /-- A root task lets the optimizer balance. -/
  | balance
  /-- The tuner of the optimizer has chosen another configuration. -/
  | tune (activeNodes : List Bool) (activeFrequency : Nat)

/-- The handler of an action; `fuel` bounds the loops of `task_distribution_mapping`. -/
def handle (sqrt : F → F) (numLocalities fuel : Nat) (self : PolicyService) :
    Action F → Except Fault PolicyService
  | .setPolicy policy => self.setPolicy numLocalities policy
  | .toggleNode localityId => self.toggleNode localityId
  | .updatePolicy times mask freq => self.updatePolicy sqrt times mask freq fuel
  | .applyNewMapping newMapping => self.applyNewMapping newMapping
  | .balance => do
    let _ ← self.balance fuel
    return self
  | .tune activeNodes activeFrequency =>
    return { self with optimizer := ⟨activeNodes, activeFrequency⟩ }

/-- The steps of a locality, until a handler does not return. -/
inductive Step (sqrt : F → F) (numLocalities : Nat) :
    Except Fault PolicyService → Action F → Except Fault PolicyService → Prop
  | handle {self : PolicyService} {action : Action F} (fuel : Nat) :
      Step sqrt numLocalities (.ok self) action (self.handle sqrt numLocalities fuel action)

/-- A locality that starts with the policy of the environment. -/
def commands (sqrt : F → F) (numLocalities : Nat) (env : Option String) (isRoot : Bool)
    (frequency : Nat) : System (Except Fault PolicyService) (Action F) where
  start := create numLocalities env isRoot frequency
  step := Step sqrt numLocalities

/-- No policy object has been cast to a class of which it is not. -/
def KindSafe (state : Except Fault PolicyService) : Prop := state ≠ .error .badCast

/-- A new mapping is not applied while the policy is the random one. -/
def Action.Mappable (state : Except Fault PolicyService) : Action F → Prop
  | .applyNewMapping _ => ∀ self, state = .ok self → self.policy.value ≠ .random
  | _ => True

end PolicyService

/-! ## Handlers -/

/-- A handler ends with a value that meets `post`, or fails for another reason than a cast. -/
abbrev Casts {α : Type} (post : α → Prop) : Except Fault α → Prop := Ensures (· ≠ .badCast) post

/-- What is undefined is not a cast. -/
theorem casts_defined {α : Type} (value : Option α) :
    Casts (fun _ => True) (Fault.defined value) := by
  cases value with
  | some value => trivial
  | none => exact Fault.noConfusion

namespace SchedulingPolicy

/-- The object is a tree policy. -/
def IsTree (self : SchedulingPolicy) : Prop := ∃ policy, self = .tree policy

/-- A tree policy that is computed from what may be undefined. -/
theorem casts_tree (value : Option TreeSchedulingPolicy) :
    Casts IsTree (do return .tree (← Fault.defined value)) :=
  (casts_defined value).bind fun policy _ => .pure ⟨policy, rfl⟩

/-- A uniform policy is a tree policy. -/
theorem casts_createUniform (mask : List Bool) : Casts IsTree (createUniform mask) := casts_tree _

/-- A tree policy is cast without a fault. -/
theorem casts_toTree {self : SchedulingPolicy} (tree : self.IsTree) :
    Casts (fun _ => True) self.toTree := by
  obtain ⟨policy, rfl⟩ := tree
  trivial

/-- The policy of a mapping derives from a tree policy. -/
theorem casts_fromMapping {oldBase : SchedulingPolicy} (tree : oldBase.IsTree)
    (mapping : List Nat) :
    Casts IsTree (oldBase.fromMapping mapping) :=
  (casts_toTree tree).bind fun _ _ => casts_tree _

variable {F : Type} [NatCast F] [Add F] [Sub F] [Mul F] [Div F] [OfScientific F] [LT F]
  [DecidableLT F]

/-- A rebalanced policy derives from a tree policy. -/
theorem casts_createRebalanced {oldBase : SchedulingPolicy} (tree : oldBase.IsTree) (sqrt : F → F)
    (getTime : TaskPath → F) (mask : List Bool) (fuel : Nat) :
    Casts IsTree (oldBase.createRebalanced sqrt getTime mask fuel) :=
  (casts_toTree tree).bind fun _ _ => casts_tree _

end SchedulingPolicy

namespace ReplacablePolicy

/-- The object is a tree policy exactly if the name is not that of the random policy. -/
def Named (self : ReplacablePolicy) : Prop := self.value ≠ .random ↔ self.policy.IsTree

/-- A tree policy may have every other name. -/
theorem named_of_tree {value : PolicyValue} {policy : SchedulingPolicy} (other : value ≠ .random)
    (tree : policy.IsTree) : Named ⟨value, policy⟩ := ⟨fun _ => tree, fun _ => other⟩

/-- The random policy is no tree policy. -/
theorem named_createRandom (numLocalities : Nat) :
    Named ⟨.random, SchedulingPolicy.createRandom numLocalities⟩ := by
  constructor
  · intro other
    exact absurd rfl other
  · rintro ⟨policy, tree⟩
    exact SchedulingPolicy.noConfusion tree

/-- A policy that is chosen has its own name. -/
theorem casts_createPolicy (numLocalities : Nat) (policy : String) :
    Casts Named (createPolicy numLocalities policy) := by
  have uniform (value : PolicyValue) (other : value ≠ .random) : Casts Named (do
      return ⟨value, ← SchedulingPolicy.createUniform (List.replicate numLocalities true)⟩) :=
    (SchedulingPolicy.casts_createUniform _).bind fun _ tree => .pure (named_of_tree other tree)
  unfold createPolicy
  apply Ensures.ite (fun _ => uniform _ (by decide)) fun _ => ?_
  apply Ensures.ite (fun _ => uniform _ (by decide)) fun _ => ?_
  apply Ensures.ite (fun _ => uniform _ (by decide)) fun _ => ?_
  apply Ensures.ite (fun _ => uniform _ (by decide)) fun _ => ?_
  apply Ensures.ite (fun _ => .pure (named_createRandom numLocalities)) fun _ => ?_
  exact uniform _ (by decide)

end ReplacablePolicy

namespace PolicyService

open SchedulingPolicy ReplacablePolicy

variable {numLocalities : Nat} {self : PolicyService}

/-- The policy at the start has its own name. -/
theorem casts_create (numLocalities : Nat) (env : Option String) (isRoot : Bool) (frequency : Nat) :
    Casts (fun self => self.policy.Named) (create numLocalities env isRoot frequency) := by
  have chosen : Casts Named (createPolicyOfEnv numLocalities env) := by
    cases env with
    | some env => exact casts_createPolicy numLocalities env
    | none => exact casts_createPolicy numLocalities "uniform"
  exact chosen.bind fun policy named => .pure named

/-- A new mapping keeps the name of a tree policy. -/
theorem casts_applyNewMapping (tree : self.policy.policy.IsTree)
    (other : self.policy.value ≠ .random)
    (newMapping : List Nat) :
    Casts (fun self => self.policy.Named) (self.applyNewMapping newMapping) :=
  (casts_fromMapping tree newMapping).bind fun _ tree => .pure (named_of_tree other tree)

/-- Applying a new mapping to the random policy casts it. -/
theorem applyNewMapping_random (random : ¬ self.policy.policy.IsTree) (newMapping : List Nat) :
    self.applyNewMapping newMapping = .error .badCast := by
  unfold applyNewMapping SchedulingPolicy.fromMapping
  cases kind : self.policy.policy with
  | tree policy => exact absurd ⟨policy, kind⟩ random
  | random => rfl

/-- Switching a node replaces the random policy by a uniform one. -/
theorem casts_toggleNode (localityId : Nat) :
    Casts (fun self => self.policy.Named) (self.toggleNode localityId) := by
  unfold toggleNode
  apply Ensures.ite (fun _ => .throw (by decide)) fun _ => ?_
  refine (casts_createUniform _).bind fun policy tree => ?_
  apply Ensures.ite
  · intro _
    exact .pure (named_of_tree (by decide) tree)
  · intro other
    exact .pure (named_of_tree other tree)

/-- A policy that is set has its own name. -/
theorem casts_setPolicy (policy : String) :
    Casts (fun self => self.policy.Named) (self.setPolicy numLocalities policy) :=
  (casts_createPolicy numLocalities policy).bind fun _ named => .pure named

/-- Balancing casts the policy only when its name is `ino`. -/
theorem casts_balance (named : self.policy.Named) (fuel : Nat) :
    Casts (fun _ => True) (self.balance fuel) := by
  unfold balance
  apply Ensures.ite (fun _ => .throw (by decide)) fun _ => ?_
  cases value : self.policy.value with
  | ino =>
    have tree : self.policy.policy.IsTree := named.mp (by simp [value])
    exact (casts_toTree tree).bind fun _ _ => (casts_defined _).bind fun _ _ => .pure trivial
  | _ => trivial

variable {F : Type} [NatCast F] [Add F] [Sub F] [Mul F] [Div F] [OfScientific F] [LT F]
  [DecidableLT F] {sqrt : F → F}

/-- New task times are used only when the policy is a tree policy. -/
theorem casts_updatePolicy (named : self.policy.Named) (times : TaskPath → F) (mask : List Bool)
    (freq fuel : Nat) :
    Casts (fun self => self.policy.Named) (self.updatePolicy sqrt times mask freq fuel) := by
  unfold updatePolicy
  apply Ensures.ite
  · intro _
    exact named
  · intro chosen
    have other : self.policy.value ≠ .random := by
      intro random
      apply chosen
      simp [random]
    exact (casts_createRebalanced (named.mp other) sqrt times mask fuel).bind fun _ tree =>
      .pure (named_of_tree other tree)

/-- A handler of a policy with its own name keeps that and casts tree policies only, unless it
applies a new mapping to the random policy. -/
theorem casts_handle (named : self.policy.Named) {action : Action F}
    (mappable : action.Mappable (.ok self)) (fuel : Nat) :
    Casts (fun self => self.policy.Named) (self.handle sqrt numLocalities fuel action) := by
  cases action with
  | setPolicy policy => exact casts_setPolicy policy
  | toggleNode localityId => exact casts_toggleNode localityId
  | updatePolicy times mask freq => exact casts_updatePolicy named times mask freq fuel
  | applyNewMapping newMapping =>
    have other := mappable self rfl
    exact casts_applyNewMapping (named.mp other) other newMapping
  | balance => exact (casts_balance named fuel).bind fun _ _ => .pure named
  | tune => exact named

/-- In every run, every cast is of a tree policy exactly if no new mapping is applied to the random
policy. -/
theorem kindSafe_run_iff {env : Option String} {isRoot : Bool} {frequency : Nat}
    {history : List (Except Fault PolicyService × Action F)} {state : Except Fault PolicyService}
    (run : (commands sqrt numLocalities env isRoot frequency).Run history state) :
    System.Always KindSafe history state ↔
      System.Meets (fun state action => action.Mappable state) history := by
  have safe (state : Except Fault PolicyService)
      (casts : Casts (fun self => self.policy.Named) state) : KindSafe state := by
    rintro rfl
    exact casts rfl
  refine run.always_iff_meets (casts_create numLocalities env isRoot frequency) safe ?_ ?_
  · rintro _ action _ casts mappable ⟨fuel⟩
    exact casts_handle casts mappable fuel
  · rintro _ action _ casts ⟨fuel⟩ kindSafe
    cases action with
    | applyNewMapping newMapping =>
      intro self same random
      cases same
      exact kindSafe (applyNewMapping_random (fun tree => casts.mpr tree random) newMapping)
    | _ => trivial

/-! ## A message in flight -/

/-- The optimizer asks for the mapping of a uniform policy, and the policy is switched to the random
one before the new mapping arrives. -/
theorem run_switched (sqrt : F → F) {size : Nat} (nodes : 0 < size) (newMapping : List Nat) :
    ∃ history : List (Except Fault PolicyService × Action F), history.map Prod.snd =
        [.applyNewMapping newMapping, .setPolicy "random", .balance] ∧
      (commands sqrt size (some "ino") true 0).Run history (.error .badCast) := by
  obtain ⟨policy, mapping, made, fuel, read⟩ :=
    TreeSchedulingPolicy.createUniform_read nodes (max (ceilLog2 size + 3) 5)
  let optimizer : GlobalOptimizer := ⟨List.replicate size true, 0⟩
  let uniform : PolicyService := ⟨⟨.ino, .tree policy⟩, true, optimizer⟩
  let random : PolicyService := ⟨⟨.random, createRandom size⟩, true, optimizer⟩
  have start : create size (some "ino") true 0 = .ok uniform := by
    unfold create createPolicyOfEnv createPolicy SchedulingPolicy.createUniform
    unfold TreeSchedulingPolicy.createUniform at made
    simp [made, Fault.defined, uniform, optimizer]
  have asked : uniform.balance fuel = .ok (some (.balanceIno mapping)) := by
    show (do
      return some (BalanceCall.balanceIno (← Fault.defined (policy.taskDistributionMapping
        fuel)))) = _
    rw [read]
    rfl
  have balanced : uniform.handle sqrt size fuel .balance = .ok uniform := by
    show (do let _ ← uniform.balance fuel; return uniform) = _
    rw [asked]
    rfl
  have switched : uniform.handle sqrt size fuel (.setPolicy "random") = .ok random := by
    unfold handle setPolicy createPolicy
    simp [uniform, random, optimizer]
    rfl
  have applied : random.handle sqrt size fuel (.applyNewMapping newMapping) = .error .badCast := rfl
  refine ⟨[(.ok random, _), (.ok uniform, _), (.ok uniform, _)], rfl, ?_⟩
  rw [← applied]
  apply System.Run.step _ (Step.handle fuel)
  rw [← switched]
  apply System.Run.step _ (Step.handle fuel)
  nth_rewrite 2 [← balanced]
  apply System.Run.step _ (Step.handle fuel)
  rw [← start]
  exact .start

/-- A run of a locality among two in which a new mapping arrives after the policy was switched. -/
theorem kindSafe_run_two :
    ∃ (history : List (Except Fault PolicyService × Action ℚ)) (state : Except Fault PolicyService),
      (commands id 2 (some "ino") true 0).Run history state ∧ history.length = 3 ∧
        (System.Always KindSafe history state ↔
          System.Meets (fun state action => action.Mappable state) history) := by
  obtain ⟨history, actions, run⟩ := run_switched (F := ℚ) id (show 0 < 2 by decide) [0, 1]
  have length : history.length = 3 := by
    rw [← List.length_map Prod.snd, actions]
    rfl
  exact ⟨history, _, run, length, kindSafe_run_iff run⟩

/-- A new mapping that arrives after the policy was switched casts the random policy. -/
theorem not_kindSafe :
    ¬ ∀ (history : List (Except Fault PolicyService × Action ℚ))
      (state : Except Fault PolicyService),
      (commands id 2 (some "ino") true 0).Run history state → KindSafe state := by
  intro claim
  obtain ⟨history, -, run⟩ := run_switched (F := ℚ) id (show 0 < 2 by decide) [0, 1]
  exact claim _ _ run rfl

end PolicyService

end AllScale
