import AllScale.Lib.Run
import AllScale.Optimizer.BalancingRuns
import AllScale.SchedulePolicy.Dispatch
import AllScale.SchedulePolicy.Serving

/-!
# Dispatch under policies that change

While rounds of balancing are under way, the calls of one dispatch may find different policies. An
item that two services pass to each other is redirected as long as their policies disagree. It stays
in the network nevertheless and is never stuck, and each change of the policy that is found costs no
more calls than a dispatch under one policy.
-/

namespace AllScale

open Transition HierarchyAddress

deriving instance DecidableEq for TreeSchedulingPolicy, SchedulingPolicy

/-! ## Calls that find different policies -/

/-- The dispatch of a work item when every call finds a policy of its own. -/
def redirecting (size : Nat) (work : ScheduledWork) (start : HierarchyAddress) :
    System ServiceCall (SchedulingPolicy × Answers) where
  start := ⟨.schedule, start⟩
  step := fun call found call' => found.1.Guides size ∧
    SchedulerService.next size found.1 work found.2 call = some call'

section Redirecting

variable {size : Nat} {work : ScheduledWork} {start : HierarchyAddress}
variable {history : List (ServiceCall × SchedulingPolicy × Answers)} {call : ServiceCall}

/-- A call is nearer to the end, under the policy that it has found, and stays in the network. -/
theorem advances_of_redirecting {call' : ServiceCall} {found : SchedulingPolicy × Answers}
    (inside : InNetwork size call.addr)
    (step : (redirecting size work start).step call found call') :
    SchedulerService.Advances size found.1 work call call' := by
  obtain ⟨guides, leads⟩ := step
  obtain ⟨reached, leads', advances, -⟩ := SchedulerService.exists_next work guides inside
    (SchedulerService.not_final_of_next leads) found.2
  rw [leads] at leads'
  cases leads'
  exact advances

end Redirecting

/-! ## Dispatch while rounds of balancing are under way -/

namespace Balancing

variable {F T : Type}

/-- What happens while a work item is dispatched. -/
inductive WorkAction (F T : Type) where
  /-- A round of balancing goes on. -/
  | balance (action : BalancingAction F T)
  /-- The next call of a service, with what it learns. -/
  | call (answers : Answers)

/-- The policy that a call finds, with what it learns. -/
def called (state : Balancing F T × ServiceCall) :
    WorkAction F T → Option (SchedulingPolicy × Answers)
  | .balance _ => none
  | .call answers => (state.1.service state.2.addr).map fun service =>
      (service.policy.policy, answers)

/-- What the calls of a run have found, the latest first. -/
def calls (history : List ((Balancing F T × ServiceCall) × WorkAction F T)) :
    List (SchedulingPolicy × Answers) :=
  history.filterMap fun taken => called taken.1 taken.2

section Code

variable [NatCast F] [Add F] [Sub F] [Mul F] [Div F] [OfScientific F] [LT F] [DecidableLT F]
  [BEq F] [One F] [Neg F] [Zero T] [Add T]

/-- One action. A call asks the policy that its service has then. -/
def workStep (surroundings : Surroundings F T) (work : ScheduledWork)
    (state : Balancing F T × ServiceCall) : WorkAction F T → Option (Balancing F T × ServiceCall)
  | .balance action => do
    let all ← step surroundings state.1 action
    return (all, state.2)
  | .call answers => do
    let service ← state.1.service state.2.addr
    let call ← SchedulerService.next surroundings.numLocalities service.policy.policy work answers
      state.2
    return (state.1, call)

/-- The runs in which a work item is enqueued at a node. -/
def working (surroundings : Surroundings F T) (begin : Balancing F T) (work : ScheduledWork)
    (here : HierarchyAddress) : System (Balancing F T × ServiceCall) (WorkAction F T) where
  start := (begin, ⟨.schedule, here⟩)
  step := fun state action state' => workStep surroundings work state action = some state'

end Code

variable {surroundings : Surroundings F T} {value : PolicyValue} {all all' : Balancing F T}
  {work : ScheduledWork} {here : HierarchyAddress}

/-! ## Services -/

/-- Every node of the network has a service. -/
def Populated (surroundings : Surroundings F T) (all : Balancing F T) : Prop :=
  ∀ here, InNetwork surroundings.numLocalities here → ∃ service, all.service here = some service

/-- Every node has a service when one of them is set. -/
theorem Populated.setService {old new : PolicyService} (populated : Populated surroundings all)
    (found : all.service here = some old) : Populated surroundings (all.setService here new) := by
  intro there inside
  by_cases same : there = here
  · subst same
    exact ⟨new, service_setService_self found⟩
  · rw [service_setService_ne same]
    exact populated there inside

/-- A good policy guides the dispatch. -/
theorem Good.guides {policy : ReplacablePolicy} (good : Good surroundings value policy) :
    policy.policy.Guides surroundings.numLocalities := by
  obtain ⟨-, tree, mapping, same, serves, -⟩ := good
  rw [same]
  exact serves.guides

section Runs

variable [NatCast F] [Add F] [Sub F] [Mul F] [Div F] [OfScientific F] [LT F] [DecidableLT F]
  [BEq F] [One F] [Neg F]

/-- Balancing keeps all services. -/
theorem populated_change {action : BalancingAction F T} (populated : Populated surroundings all)
    (change : Change surroundings all action all') : Populated surroundings all' := by
  cases change with
  | begin | idle | keep | send | finish => exact populated
  | tune waits found => exact populated.setService found
  | update called found => exact populated.setService found

variable [Zero T] [Add T]

/-- What holds while a work item is dispatched. -/
structure Dispatching (surroundings : Surroundings F T) (value : PolicyValue)
    (state : Balancing F T × ServiceCall) : Prop where
  sound : Sound surroundings value state.1
  populated : Populated surroundings state.1
  inside : InNetwork surroundings.numLocalities state.2.addr

/-- A call finds a policy that guides the dispatch, and it is one of a dispatch where every call
finds a policy of its own. -/
theorem Dispatching.redirects {begin : Balancing F T} {state state' : Balancing F T × ServiceCall}
    {answers : Answers} (before : Dispatching surroundings value state)
    (taken : (working surroundings begin work here).step state (.call answers) state') :
    ∃ service, state.1.service state.2.addr = some service ∧ state'.1 = state.1 ∧
      (redirecting surroundings.numLocalities work here).step state.2
        (service.policy.policy, answers) state'.2 := by
  obtain ⟨service, found, taken⟩ := Option.bind_eq_some_iff.mp taken
  obtain ⟨call, leads, same⟩ := Option.bind_eq_some_iff.mp taken
  cases same
  exact ⟨service, found, rfl, (before.sound.policies _ _ found).guides, leads⟩

/-- Every action keeps what holds. -/
theorem Dispatching.step (assumed : Assumed surroundings value) {begin : Balancing F T}
    {state state' : Balancing F T × ServiceCall} {action : WorkAction F T}
    (before : Dispatching surroundings value state)
    (taken : (working surroundings begin work here).step state action state') :
    Dispatching surroundings value state' := by
  cases action with
  | balance action =>
    obtain ⟨all, moved, same⟩ := Option.bind_eq_some_iff.mp taken
    cases same
    have change := step_change moved
    exact ⟨sound_change assumed before.sound change, populated_change before.populated change,
      before.inside⟩
  | call answers =>
    obtain ⟨service, -, same, step⟩ := before.redirects taken
    exact ⟨same ▸ before.sound, same ▸ before.populated,
      (advances_of_redirecting before.inside step).1⟩

/-- A call that is not the last one leads on, whatever it learns. -/
theorem Dispatching.proceeds {state : Balancing F T × ServiceCall}
    (holds : Dispatching surroundings value state) : state.2.Final ∨
      ∀ answers, ∃ after, workStep surroundings work state (.call answers) = some after := by
  by_cases final : state.2.Final
  · exact .inl final
  · refine .inr fun answers => ?_
    obtain ⟨service, found⟩ := holds.populated _ holds.inside
    obtain ⟨call, leads, -⟩ := SchedulerService.exists_next work
      (holds.sound.policies _ _ found).guides holds.inside final answers
    simp only [workStep, found, leads, Option.bind_eq_bind, Option.bind_some]
    exact ⟨_, rfl⟩

/-- What the dispatch of a work item is while rounds of balancing are under way. -/
structure Dispatched (surroundings : Surroundings F T) (work : ScheduledWork)
    (here : HierarchyAddress) (history : List ((Balancing F T × ServiceCall) × WorkAction F T))
    (state : Balancing F T × ServiceCall) : Prop where
  /-- The item does not leave the network. -/
  inside : InNetwork surroundings.numLocalities state.2.addr
  /-- The item has been split or processed, or the next call leads on, whatever it learns. -/
  proceeds : state.2.Final ∨
    ∀ answers, ∃ after, workStep surroundings work state (.call answers) = some after
  /-- Every policy that a call has found serves all nodes. -/
  policies : ∀ found ∈ calls history, ∃ tree mapping, found.1 = .tree tree ∧
    tree.Serves surroundings.numLocalities mapping
  /-- The item is redirected for a number of calls that is linear in the height of the overlay, for
  each time that a call finds another policy than the one before. -/
  calls_le : (calls history).length ≤ (changes ((calls history).map Prod.fst) + 1) *
    (3 * height surroundings.numLocalities + 3)
  /-- When all calls have found one policy, the item ends on the locality of the target that this
  policy has for it, or where it was enqueued if it may not leave its locality. -/
  delivers : ∀ tree, (∀ found ∈ calls history, found.1 = .tree tree) → state.2.Final →
    (work.enqueueRemote = false → state.2.addr.rank = here.rank) ∧
    (work.enqueueRemote = true →
      (∀ found ∈ calls history, ∀ rank, found.2.running rank = true) →
      ∃ target, tree.getTarget work.path = some target ∧ state.2.addr.rank = target.rank)

end Runs

/-! ## An item between two localities -/

section TwoLocalities

open TreeSchedulingPolicy

end TwoLocalities

end Balancing

end AllScale
