import AllScale.SchedulePolicy.Descent
import AllScale.SchedulePolicy.Kinds

/-!
# The dispatch of a work item

A work item that is enqueued on a locality is passed from service to service: upwards by `schedule`
until a node may decide about it, downwards by `schedule_down` while the policy sends it to a child,
and along the left children by `schedule_local` until it is split or processed. What a service
learns about data, about failed ranks and about the depth of the splits may change from call to
call, and the random policy draws anew in each of them.
-/

namespace AllScale

open TokenTree HierarchyAddress Transition

namespace SchedulingPolicy

/-- `scheduling_policy::is_involved` of either policy. -/
def isInvolved (policy : SchedulingPolicy) (addr : HierarchyAddress) (path : TaskPath) :
    Option Bool :=
  match policy with
  | .tree policy => policy.isInvolved addr path
  | .random _ root =>
    if addr = root then some true
    else some ((path.getLength : Int) - 3 ≥ (root.layer : Int) - addr.layer)

/-- `scheduling_policy::decide` of either policy; `draw` is the number that the random one draws. -/
def decide (policy : SchedulingPolicy) (draw : Rat) (addr : HierarchyAddress) (path : TaskPath) :
    Option ScheduleDecision :=
  match policy with
  | .tree policy => policy.decide addr path
  | .random _ root =>
    if path.getLength < 3 then some .stay
    else if (path.getLength : Int) - 3 = (root.layer : Int) - addr.layer then some .stay
    else if draw < 1 / 2 then some .left
    else some .right

end SchedulingPolicy

/-- `work_item` — what the scheduler asks of it. -/
structure ScheduledWork where
  /-- The task path of its id. -/
  path : TaskPath
  /-- `enqueue_remote`. -/
  enqueueRemote : Bool
  /-- `can_split`. -/
  canSplit : Bool

/-- What a service learns from the rest of the runtime during one call. -/
structure Answers where
  /-- `check_write_requirements` of the requirements of the item. -/
  control : Bool
  /-- `get_missing_regions` of the requirements of the item. -/
  unallocated : Bool
  /-- What the random policy draws. -/
  draw : Rat
  /-- `resilience::rank_running`. -/
  running : Nat → Bool
  /-- `depth_cut_off_` of the scheduler of the locality. -/
  depthCutOff : Nat

/-- The calls between the services, and how the last one ends. -/
inductive Stage where
  /-- A call of `scheduler_service::schedule`. -/
  | schedule
  /-- A call of `scheduler_service::schedule_down`. -/
  | scheduleDown
  /-- A call of `scheduler_service::schedule_local`. -/
  | scheduleLocal
  /-- The item is split. -/
  | split
  /-- The item is processed. -/
  | process
  deriving DecidableEq

/-- Where a work item is on its way. -/
structure ServiceCall where
  /-- What is called. -/
  stage : Stage
  /-- The address of the service that is called. -/
  addr : HierarchyAddress
  deriving DecidableEq

/-- `scheduler::do_split`. -/
def ScheduledWork.doSplit (work : ScheduledWork) (depthCutOff : Nat) : Bool :=
  work.canSplit && work.path.getLength < depthCutOff

namespace SchedulerService

/-- The child that a turn leads to. -/
def child (service : SchedulerService) : Side → HierarchyAddress
  | .left => service.left
  | .right => service.right

variable (size : Nat) (policy : SchedulingPolicy) (work : ScheduledWork) (answers : Answers)
  (here : HierarchyAddress)

/-- The question of `schedule` whether a node that is not the root takes part in the scheduling of
the parent task. -/
def involvedInParent : Option Bool :=
  match work.path with
  | [] => some (here = getRootOfNetworkSize size)
  | _ :: parent => policy.isInvolved here parent

/-- `scheduler_service::schedule` at a node. -/
def scheduleAt : Option ServiceCall := do
  if ¬ work.enqueueRemote then some ⟨.scheduleLocal, here⟩
  else
    let shortcut ←
      if here ≠ getRootOfNetworkSize size then do
        let isInvolved ← involvedInParent size policy work here
        some (isInvolved && answers.control)
      else some false
    if shortcut then some ⟨.scheduleDown, here⟩
    else if answers.unallocated then some ⟨.scheduleDown, here⟩
    else if here ≠ getRootOfNetworkSize size then some ⟨.schedule, here.getParent⟩
    else some ⟨.scheduleDown, here⟩

/-- `scheduler_service::schedule_down` at a node, under either policy. -/
def scheduleDownAt : Option ServiceCall := do
  let service := create size here
  let isInvolved ← policy.isInvolved here work.path
  if isInvolved then
    let d ← policy.decide answers.draw here work.path
    if d = .done then none
    else if d = .stay ∨ here.isLeaf then some ⟨.scheduleLocal, here⟩
    else
      let targetLeft := d = .left ∨ service.right = service.left
      if ¬ targetLeft ∧ ¬ answers.running service.right.rank then some ⟨.scheduleLocal, here⟩
      else if targetLeft then some ⟨.scheduleDown, service.left⟩
      else some ⟨.scheduleDown, service.right⟩
  else if here = getRootOfNetworkSize size then none
  else some ⟨.schedule, here.getParent⟩

/-- `scheduler_service::schedule_local` at a node, with `scheduler::schedule_local` of its
locality. -/
def scheduleLocalAt : Option ServiceCall :=
  if work.doSplit answers.depthCutOff then
    if ¬ work.canSplit then none else some ⟨.split, here⟩
  else if ¬ here.isLeaf then some ⟨.scheduleLocal, (create size here).left⟩
  else some ⟨.process, here⟩

/-- What a call leads to. -/
def next : ServiceCall → Option ServiceCall
  | ⟨.schedule, here⟩ => scheduleAt size policy work answers here
  | ⟨.scheduleDown, here⟩ => scheduleDownAt size policy work answers here
  | ⟨.scheduleLocal, here⟩ => scheduleLocalAt size work answers here
  | ⟨.split, _⟩ => none
  | ⟨.process, _⟩ => none

end SchedulerService

/-- The item has been split or processed. -/
def ServiceCall.Final (call : ServiceCall) : Prop := call.stage = .split ∨ call.stage = .process

/-- The dispatch of a work item that is enqueued at a node; each call gets answers of its own. -/
def dispatching (size : Nat) (policy : SchedulingPolicy) (work : ScheduledWork)
    (start : HierarchyAddress) : System ServiceCall Answers where
  start := ⟨.schedule, start⟩
  step := fun call answers call' => SchedulerService.next size policy work answers call = some call'

/-- From every node on, whatever the services learn in their calls, the dispatch of a work item
stays in the network, never gets stuck before the item is split or processed, hands the item to
another locality below only if that is running, and ends after a number of calls that is linear in
the height of the overlay. -/
def Dispatches (size : Nat) (policy : SchedulingPolicy) : Prop :=
  ∀ (work : ScheduledWork) (start : HierarchyAddress), InNetwork size start →
    ∀ history call, (dispatching size policy work start).Run history call →
      history.length ≤ 3 * height size + 3 ∧ InNetwork size call.addr ∧
      (call.Final ∨ ∀ answers, ∃ call', SchedulerService.next size policy work answers call =
        some call') ∧
      System.Meets (fun call answers => ∀ call',
        SchedulerService.next size policy work answers call = some call' →
        call.stage = .scheduleDown → call'.stage = .scheduleDown →
        call'.addr.rank = call.addr.rank ∨ answers.running call'.addr.rank = true) history

/-! ## Policies that guide the dispatch -/

/-- The policy answers every question, sends a task from an involved node to an involved child only,
and involves the nodes of a task in its children. -/
structure SchedulingPolicy.Guides (size : Nat) (policy : SchedulingPolicy) : Prop where
  /-- Whether a node is involved is defined. -/
  asks : ∀ addr path, ∃ involved, policy.isInvolved addr path = some involved
  /-- The root is involved in every task. -/
  root : ∀ path, policy.isInvolved (getRootOfNetworkSize size) path = some true
  /-- What is involved in a task is involved in its children. -/
  longer : ∀ {addr path} (s : Side), policy.isInvolved addr path = some true →
    policy.isInvolved addr (s :: path) = some true
  /-- A decision is a turn, and it leads to a child that is involved. -/
  turns : ∀ {addr path}, InNetwork size addr → policy.isInvolved addr path = some true →
    ∀ draw, ∃ turn, policy.decide draw addr path = some (.ofTurn turn) ∧
      (addr.isLeaf = false → ∀ s, turn = some s →
        policy.isInvolved ((SchedulerService.create size addr).child s) path = some true)

namespace SchedulerService

variable {size : Nat} {policy : SchedulingPolicy} {work : ScheduledWork} {answers : Answers}
variable {here : HierarchyAddress}

/-- The service on the left of an inner node. -/
theorem left_create (virtual : here.isLeaf = false) :
    (create size here).left = here.getLeftChild := by
  simp [create, virtual]

/-- The service on the left is on the same locality. -/
theorem rank_left (virtual : here.isLeaf = false) :
    (create size here).left.rank = here.rank := by
  rw [left_create virtual]
  rfl

/-- The service on the right of an inner node, which may be missing. -/
theorem right_create (virtual : here.isLeaf = false) :
    (create size here).right = if here.getRightChild.rank ≥ size then here.getLeftChild
      else here.getRightChild := by
  simp [create, virtual]

/-- The services below a node are nodes of the network, one layer down. -/
theorem child_inNetwork (inside : InNetwork size here) (virtual : here.isLeaf = false) (s : Side) :
    InNetwork size ((create size here).child s) ∧
      ((create size here).child s).layer + 1 = here.layer := by
  obtain ⟨member, bound⟩ := inNetwork_iff_mem.mp inside
  have inner : (overlay (height size)).layer here ≠ 0 := beq_eq_false_iff_ne.mp virtual
  have left : InNetwork size here.getLeftChild ∧ here.getLeftChild.layer + 1 = here.layer :=
    ⟨inNetwork_iff_mem.mpr ⟨(overlay _).child_mem .left member inner, bound⟩,
      (overlay (height size)).layer_child .left member inner⟩
  cases s with
  | left =>
    rw [child, left_create virtual]
    exact left
  | right =>
    rw [child, right_create virtual]
    split
    · exact left
    · exact ⟨inNetwork_iff_mem.mpr ⟨(overlay _).child_mem .right member inner,
        show here.getRightChild.rank < size by omega⟩,
        (overlay (height size)).layer_child .right member inner⟩

/-- The parent of a node other than the root is a node of the network, one layer up. -/
theorem parent_inNetwork (inside : InNetwork size here)
    (notRoot : here ≠ getRootOfNetworkSize size) :
    InNetwork size here.getParent ∧ here.getParent.layer = here.layer + 1 := by
  have nodes : 0 < size := by
    have bound := (inNetwork_iff.mp inside).1
    omega
  exact ⟨((hierarchy_closed nodes here).2 inside).2.2.2 notRoot, rfl⟩

/-! ## One call -/

/-- How far a call is from the end: the layers above it are still to be climbed, those below it to
be descended. -/
def weight (size : Nat) (policy : SchedulingPolicy) (work : ScheduledWork) : ServiceCall → Nat
  | ⟨.schedule, addr⟩ => 2 * (height size - addr.layer) + height size + 3
  | ⟨.scheduleDown, addr⟩ =>
    if policy.isInvolved addr work.path = some true then addr.layer + 2
    else 2 * (height size - addr.layer) + height size + 2
  | ⟨.scheduleLocal, addr⟩ => addr.layer + 1
  | ⟨.split, _⟩ => 0
  | ⟨.process, _⟩ => 0

/-- A call leads to one in the network that is nearer to the end. -/
def Advances (size : Nat) (policy : SchedulingPolicy) (work : ScheduledWork)
    (call call' : ServiceCall) : Prop :=
  InNetwork size call'.addr ∧ weight size policy work call' < weight size policy work call

/-- A call of `schedule_down` weighs less than one of `schedule` at the same node. -/
theorem weight_scheduleDown_lt (inside : InNetwork size here) :
    weight size policy work ⟨.scheduleDown, here⟩ < weight size policy work ⟨.schedule, here⟩ := by
  have low := (inNetwork_iff.mp inside).2.2
  simp only [weight]
  split <;> omega

/-- `schedule` passes an item to `schedule_down` at the same node, to its parent, or keeps it. -/
theorem scheduleAt_advances (work : ScheduledWork) (answers : Answers)
    (guides : policy.Guides size) (inside : InNetwork size here) :
    ∃ call', scheduleAt size policy work answers here = some call' ∧
      Advances size policy work ⟨.schedule, here⟩ call' ∧
      (work.enqueueRemote = false → call' = ⟨.scheduleLocal, here⟩) ∧
      (work.enqueueRemote = true →
        call' = ⟨.scheduleDown, here⟩ ∨ call' = ⟨.schedule, here.getParent⟩) := by
  have low := (inNetwork_iff.mp inside).2.2
  have down : Advances size policy work ⟨.schedule, here⟩ ⟨.scheduleDown, here⟩ :=
    ⟨inside, weight_scheduleDown_lt inside⟩
  rw [scheduleAt]
  cases remote : work.enqueueRemote with
  | false => exact ⟨_, rfl, ⟨inside, by simp only [weight]; omega⟩, fun _ => rfl, by simp⟩
  | true =>
    obtain ⟨involved, asked⟩ : ∃ involved, involvedInParent size policy work here =
        some involved := by
      rw [involvedInParent]
      split
      · exact ⟨_, rfl⟩
      · exact guides.asks _ _
    by_cases root : here = getRootOfNetworkSize size
    · refine ⟨⟨.scheduleDown, here⟩, ?_, down, by simp, fun _ => Or.inl rfl⟩
      simp [root]
    · obtain ⟨member, up⟩ := parent_inNetwork inside root
      have higher := (inNetwork_iff.mp member).2.2
      have climb : Advances size policy work ⟨.schedule, here⟩ ⟨.schedule, here.getParent⟩ :=
        ⟨member, by simp only [weight]; omega⟩
      simp only [not_true_eq_false, if_false, root, ne_eq, not_false_eq_true, if_true, asked,
        Option.bind_eq_bind, Option.bind_some]
      split
      · exact ⟨_, rfl, down, by simp, fun _ => Or.inl rfl⟩
      · split
        · exact ⟨_, rfl, down, by simp, fun _ => Or.inl rfl⟩
        · exact ⟨_, rfl, climb, by simp, fun _ => Or.inr rfl⟩

/-- What `schedule_down` makes of a turn: the item stays where there is nothing below, or where the
child on the right has failed, and else it goes to the child. -/
def takeTurn (size : Nat) (answers : Answers) (here : HierarchyAddress) :
    Option Side → ServiceCall
  | none => ⟨.scheduleLocal, here⟩
  | some s =>
    if here.isLeaf then ⟨.scheduleLocal, here⟩
    else if s = .left ∨ (create size here).right = (create size here).left then
      ⟨.scheduleDown, (create size here).left⟩
    else if answers.running (create size here).right.rank then
      ⟨.scheduleDown, (create size here).right⟩
    else ⟨.scheduleLocal, here⟩

/-- `schedule_down` at a node that is involved takes the turn that the policy decides. -/
theorem scheduleDownAt_of_turn {turn : Option Side}
    (involved : policy.isInvolved here work.path = some true)
    (decided : policy.decide answers.draw here work.path = some (.ofTurn turn)) :
    scheduleDownAt size policy work answers here = some (takeTurn size answers here turn) := by
  rw [scheduleDownAt]
  simp only [involved, decided, Option.bind_eq_bind, Option.bind_some, if_true,
    ScheduleDecision.ofTurn_ne_done, if_false]
  cases turn with
  | none => rfl
  | some s =>
    rw [takeTurn]
    cases leaf : here.isLeaf <;> cases s <;>
      cases running : answers.running (create size here).right.rank <;>
      by_cases same : (create size here).right = (create size here).left <;>
      simp [ScheduleDecision.ofTurn, same]

/-- The call that a handling of an item leads to. -/
def callOf (here : HierarchyAddress) : Handling → ServiceCall
  | .scheduleAtParent => ⟨.schedule, here.getParent⟩
  | .scheduleLocal => ⟨.scheduleLocal, here⟩
  | .scheduleDown child => ⟨.scheduleDown, child⟩

/-- Under a tree policy `schedule_down` does what it does in a descent; the root asserts in addition
that it is involved. -/
theorem scheduleDownAt_tree {policy : TreeSchedulingPolicy}
    (notRoot : here ≠ getRootOfNetworkSize size) :
    scheduleDownAt size (.tree policy) work answers here =
      ((create size here).scheduleDown policy answers.running work.path).map (callOf here) := by
  rw [scheduleDownAt, scheduleDown]
  show (policy.isInvolved here work.path).bind _ = ((policy.isInvolved here work.path).bind _).map _
  rcases policy.isInvolved here work.path with - | involved
  · rfl
  · cases involved with
    | false => simp [notRoot, callOf]
    | true =>
      simp only [Option.bind_some, if_true]
      show (policy.decide here work.path).bind _ = ((policy.decide here work.path).bind _).map _
      rcases policy.decide here work.path with - | d
      · rfl
      · have service : (create size here).here = here := rfl
        simp only [Option.bind_some, service]
        split_ifs <;> simp [callOf]

/-- Uninvolved, `schedule_down` gives the item back to the parent. -/
theorem scheduleDownAt_of_not_involved (answers : Answers) (guides : policy.Guides size)
    (apart : policy.isInvolved here work.path = some false) :
    here ≠ getRootOfNetworkSize size ∧
      scheduleDownAt size policy work answers here = some ⟨.schedule, here.getParent⟩ := by
  have notRoot : here ≠ getRootOfNetworkSize size := by
    intro root
    rw [root, guides.root] at apart
    exact absurd (Option.some.inj apart) (by decide)
  refine ⟨notRoot, ?_⟩
  rw [scheduleDownAt]
  simp [apart, notRoot]

/-- `schedule_down` passes an item to a running child, keeps it, or gives it back to the parent when
the node is not involved. -/
theorem scheduleDownAt_advances (work : ScheduledWork) (answers : Answers)
    (guides : policy.Guides size) (inside : InNetwork size here) :
    ∃ call', scheduleDownAt size policy work answers here = some call' ∧
      Advances size policy work ⟨.scheduleDown, here⟩ call' ∧
      (call'.stage = .scheduleDown →
        call'.addr.rank = here.rank ∨ answers.running call'.addr.rank = true) := by
  obtain ⟨involved, asked⟩ := guides.asks here work.path
  cases involved with
  | false =>
    obtain ⟨notRoot, climbs⟩ :=
      scheduleDownAt_of_not_involved answers guides asked
    obtain ⟨member, up⟩ := parent_inNetwork inside notRoot
    have higher := (inNetwork_iff.mp member).2.2
    refine ⟨_, climbs, ⟨member, ?_⟩, by simp⟩
    simp only [weight, asked, Option.some.injEq, Bool.false_eq_true, if_false]
    omega
  | true =>
    obtain ⟨turn, decided, leads⟩ := guides.turns inside asked answers.draw
    have heavy : weight size policy work ⟨.scheduleDown, here⟩ = here.layer + 2 := if_pos asked
    have stay : Advances size policy work ⟨.scheduleDown, here⟩ ⟨.scheduleLocal, here⟩ :=
      ⟨inside, by rw [heavy, weight]; omega⟩
    have down (virtual : here.isLeaf = false) {s : Side} (turned : turn = some s) :
        Advances size policy work ⟨.scheduleDown, here⟩
          ⟨.scheduleDown, (create size here).child s⟩ := by
      obtain ⟨member, lower⟩ := child_inNetwork inside virtual s
      refine ⟨member, ?_⟩
      rw [heavy, weight, if_pos (leads virtual s turned)]
      omega
    refine ⟨_, scheduleDownAt_of_turn asked decided, ?_⟩
    cases turn with
    | none => exact ⟨stay, by simp [takeTurn]⟩
    | some s =>
      cases leaf : here.isLeaf with
      | true =>
        rw [takeTurn, if_pos leaf]
        exact ⟨stay, by simp⟩
      | false =>
        simp only [takeTurn, leaf, Bool.false_eq_true, if_false]
        split
        · rename_i toLeft
          refine ⟨?_, fun _ => Or.inl (@rank_left size here leaf)⟩
          rcases toLeft with left | same
          · rw [left] at down
            exact down leaf rfl
          · have lower := down leaf rfl
            cases s with
            | left => exact lower
            | right =>
              rw [child, same] at lower
              exact lower
        · rename_i toRight
          have right : s = .right := Side.eq_other_of_ne fun left => toRight (Or.inl left)
          subst right
          split
          · rename_i alive
            exact ⟨down leaf rfl, fun _ => Or.inr alive⟩
          · exact ⟨stay, by simp⟩

/-- `schedule_local` splits the item, processes it at a leaf, or passes it to the left. -/
theorem scheduleLocalAt_advances (policy : SchedulingPolicy) (work : ScheduledWork)
    (answers : Answers) (inside : InNetwork size here) :
    ∃ call', scheduleLocalAt size work answers here = some call' ∧
      Advances size policy work ⟨.scheduleLocal, here⟩ call' ∧
      call'.addr.rank = here.rank ∧ call'.stage ≠ .schedule ∧ call'.stage ≠ .scheduleDown := by
  rw [scheduleLocalAt]
  cases split : work.doSplit answers.depthCutOff with
  | true =>
    have splittable : work.canSplit = true := (Bool.and_eq_true_iff.mp split).1
    refine ⟨⟨.split, here⟩, by simp [splittable], ⟨inside, by simp [weight]⟩, rfl, by simp⟩
  | false =>
    cases leaf : here.isLeaf with
    | true => exact ⟨⟨.process, here⟩, by simp, ⟨inside, by simp [weight]⟩, rfl, by simp⟩
    | false =>
      obtain ⟨member, lower⟩ := child_inNetwork inside leaf .left
      refine ⟨⟨.scheduleLocal, (create size here).left⟩, by simp, ⟨member, ?_⟩,
        @rank_left size here leaf, by simp⟩
      simp only [weight, child] at lower ⊢
      omega

/-- Every call before the last one leads to a call that is nearer to the end, and hands the item to
another locality below only if that is running. -/
theorem exists_next (work : ScheduledWork) (guides : policy.Guides size) {call : ServiceCall}
    (inside : InNetwork size call.addr) (going : ¬ call.Final) (answers : Answers) :
    ∃ call', next size policy work answers call = some call' ∧
      Advances size policy work call call' ∧
      (call.stage = .scheduleDown → call'.stage = .scheduleDown →
        call'.addr.rank = call.addr.rank ∨ answers.running call'.addr.rank = true) := by
  obtain ⟨stage, here⟩ := call
  cases stage with
  | schedule =>
    obtain ⟨call', leads, advances, -⟩ := scheduleAt_advances work answers guides inside
    exact ⟨call', leads, advances, by simp⟩
  | scheduleDown =>
    obtain ⟨call', leads, advances, runs⟩ :=
      scheduleDownAt_advances work answers guides inside
    exact ⟨call', leads, advances, fun _ => runs⟩
  | scheduleLocal =>
    obtain ⟨call', leads, advances, -⟩ :=
      scheduleLocalAt_advances policy work answers inside
    exact ⟨call', leads, advances, by simp⟩
  | split => exact absurd (Or.inl rfl) going
  | process => exact absurd (Or.inr rfl) going

/-- Nothing follows the last call. -/
theorem not_final_of_next {call call' : ServiceCall}
    (leads : next size policy work answers call = some call') : ¬ call.Final := by
  obtain ⟨stage, here⟩ := call
  rintro (last | last) <;> cases last <;> cases leads

end SchedulerService

/-! ## Whole runs -/

namespace SchedulingPolicy.Guides

open SchedulerService

variable {size : Nat} {policy : SchedulingPolicy}

/-- A policy that guides the dispatch of every work item lets it end. -/
theorem dispatches (guides : policy.Guides size) : Dispatches size policy := by
  intro work start inside history call run
  -- one step, from a call at a node of the network
  have forward {call answers call'} (before : InNetwork size call.addr)
      (step : (dispatching size policy work start).step call answers call') :
      Advances size policy work call call' ∧ (call.stage = .scheduleDown →
        call'.stage = .scheduleDown →
          call'.addr.rank = call.addr.rank ∨ answers.running call'.addr.rank = true) := by
    obtain ⟨reached, leads, advances, runs⟩ :=
      exists_next work guides before (not_final_of_next step) answers
    rw [← Option.some.inj (leads.symm.trans step)]
    exact ⟨advances, runs⟩
  have stays : InNetwork size call.addr :=
    run.invariant (P := fun call => InNetwork size call.addr) inside fun before step =>
      (forward before step).1.1
  refine ⟨?_, stays, ?_, ?_⟩
  · have bound := run.length_add_le (weight size policy work)
      (I := fun call => InNetwork size call.addr) inside
      (fun before step => (forward before step).1.1) fun before step => (forward before step).1.2
    have first : weight size policy work (dispatching size policy work start).start ≤
        3 * height size + 3 := by
      show 2 * (height size - start.layer) + height size + 3 ≤ _
      omega
    omega
  · by_cases final : call.Final
    · exact Or.inl final
    · refine Or.inr fun answers => ?_
      obtain ⟨call', leads, -⟩ := exists_next work guides stays final answers
      exact ⟨call', leads⟩
  · refine run.meets (I := fun call => InNetwork size call.addr) inside
      (fun before step => (forward before step).1.1) fun before _ call' leads => ?_
    exact (forward before leads).2

end SchedulingPolicy.Guides

/-! ## Tree policies -/

namespace TreeSchedulingPolicy

open SchedulerService

variable {size k : Nat} {plan : TaskPath → Option Side} {policy : TreeSchedulingPolicy}

/-- The way of every path stays in the network. -/
def WayInside (size : Nat) (plan : TaskPath → Option Side) : Prop :=
  ∀ path addr, (overlay (height size)).Visits plan path addr → addr.rank < size

/-- A decision of a policy that follows a plan is the turn of the plan. -/
theorem Follows.decide_eq_ofTurn (follows : policy.Follows k plan) (addr : HierarchyAddress)
    (path : TaskPath) :
    policy.decide addr path = some (.ofTurn
      (if (overlay k).layer addr = 0 then none else (overlay k).steer plan addr path)) := by
  rw [follows.decide_eq]
  split <;> rfl

/-- The child that a visited node is steered to is a service of its own. -/
theorem child_create {here : HierarchyAddress} {s : Side} (virtual : here.isLeaf = false)
    (inside : (here.getChild s).rank < size) : (create size here).child s = here.getChild s := by
  cases s with
  | left => exact left_create virtual
  | right =>
    have bound : ¬ here.getRightChild.rank ≥ size := Nat.not_le.mpr inside
    rw [child, right_create virtual, if_neg bound]
    rfl

/-- The way from a visited node that is not the target leads to a service below it. -/
theorem Follows.steers (wayInside : WayInside size plan) {path : TaskPath}
    {here : HierarchyAddress} (visits : (overlay (height size)).Visits plan path here)
    (onWay : here ≠ (overlay (height size)).target plan path) :
    ∃ s, here.isLeaf = false ∧ (overlay (height size)).steer plan here path = some s ∧
      (create size here).child s = here.getChild s ∧
      (overlay (height size)).Visits plan path (here.getChild s) := by
  obtain ⟨s, inner, turned, next⟩ := LayeredTree.steer_visits visits onWay
  have virtual : here.isLeaf = false := beq_eq_false_iff_ne.mpr inner
  exact ⟨s, virtual, turned, child_create virtual (wayInside _ _ next), next⟩

/-- At its target a task is not steered any further. -/
theorem steer_target_eq_none {path : TaskPath} (plan : TaskPath → Option Side) :
    (if (overlay k).layer ((overlay k).target plan path) = 0 then none
      else (overlay k).steer plan ((overlay k).target plan path) path) = none := by
  split
  · rfl
  · rename_i inner
    exact LayeredTree.steer_target inner

/-- A policy that follows a plan within the network guides the dispatch. -/
theorem Follows.guides (follows : policy.Follows (height size) plan)
    (wayInside : WayInside size plan) : (SchedulingPolicy.tree policy).Guides size where
  asks addr path := by
    obtain ⟨involved, returns, -⟩ := follows.isInvolved_iff addr path
    exact ⟨involved, returns⟩
  root path := by
    rw [← root_overlay]
    exact follows.isInvolved_of_visits (Or.inl rfl)
  longer {addr path} s involved :=
    follows.isInvolved_of_visits
      ((follows.visits_of_isInvolved involved).mono (List.suffix_cons s path))
  turns {addr path} _ involved draw := by
    have visits := follows.visits_of_isInvolved involved
    refine ⟨_, follows.decide_eq_ofTurn addr path, fun virtual s turned => ?_⟩
    by_cases arrived : addr = (overlay (height size)).target plan path
    · rw [arrived, steer_target_eq_none] at turned
      cases turned
    · obtain ⟨t, -, steer, service, next⟩ := Follows.steers wayInside visits arrived
      have inner : ¬ (overlay (height size)).layer addr = 0 := beq_eq_false_iff_ne.mp virtual
      rw [if_neg inner, steer] at turned
      cases turned
      rw [service]
      exact follows.isInvolved_of_visits next

/-- Where an item is executed: on the locality of the target of its path, when no rank has been
reported as failed, and where it was enqueued, when it may not leave its locality. -/
def Delivers (size : Nat) (policy : TreeSchedulingPolicy) : Prop :=
  ∀ (work : ScheduledWork) (start : HierarchyAddress), InNetwork size start →
    ∀ history call, (dispatching size (.tree policy) work start).Run history call →
      call.Final →
      (work.enqueueRemote = false → call.addr.rank = start.rank) ∧
      (work.enqueueRemote = true →
        System.Meets (fun _ answers => ∀ rank, answers.running rank = true) history →
        ∃ target, policy.getTarget work.path = some target ∧ call.addr.rank = target.rank)

/-- What holds of a call once its item has left the decisions of the policy. -/
def SettledAt (rank : Nat) (call : ServiceCall) : Prop :=
  call.stage ≠ .schedule → call.stage ≠ .scheduleDown → call.addr.rank = rank

/-- An item that may leave its locality is settled at the target of its path, when no rank is
reported as failed. -/
theorem settledAt_next (follows : policy.Follows (height size) plan)
    (wayInside : WayInside size plan) {work : ScheduledWork} {answers : Answers}
    {call call' : ServiceCall} (remote : work.enqueueRemote = true)
    (running : ∀ rank, answers.running rank = true) (inside : InNetwork size call.addr)
    (before : SettledAt ((overlay (height size)).target plan work.path).rank call)
    (step : next size (.tree policy) work answers call = some call') :
    SettledAt ((overlay (height size)).target plan work.path).rank call' := by
  have guides := follows.guides wayInside
  obtain ⟨stage, here⟩ := call
  cases stage with
  | schedule =>
    obtain ⟨reached, leads, -, -, passes⟩ :=
      scheduleAt_advances work answers guides inside
    rw [← Option.some.inj (leads.symm.trans step)]
    intro notUp notDown
    rcases passes remote with down | up
    · exact absurd (congrArg ServiceCall.stage down) notDown
    · exact absurd (congrArg ServiceCall.stage up) notUp
  | scheduleDown =>
    obtain ⟨involved, asked⟩ := guides.asks here work.path
    have leads : scheduleDownAt size (.tree policy) work answers here = some call' := step
    cases involved with
    | false =>
      rw [(scheduleDownAt_of_not_involved answers guides asked).2] at leads
      rw [← Option.some.inj leads]
      exact fun notUp _ => absurd rfl notUp
    | true =>
      have visits := follows.visits_of_isInvolved asked
      rw [scheduleDownAt_of_turn asked (follows.decide_eq_ofTurn here work.path)] at leads
      by_cases arrived : here = (overlay (height size)).target plan work.path
      · rw [arrived, steer_target_eq_none] at leads
        rw [← Option.some.inj leads]
        exact fun _ _ => rfl
      · -- away from the target the item goes down
        obtain ⟨s, virtual, steer, -⟩ := Follows.steers wayInside visits arrived
        have inner : ¬ (overlay (height size)).layer here = 0 := beq_eq_false_iff_ne.mp virtual
        rw [if_neg inner, steer] at leads
        simp only [takeTurn, virtual, Bool.false_eq_true, if_false, running, if_true] at leads
        intro _ notDown
        refine absurd ?_ notDown
        rw [← Option.some.inj leads]
        split <;> rfl
  | scheduleLocal =>
    obtain ⟨reached, leads, -, same, -⟩ :=
      scheduleLocalAt_advances (.tree policy) work answers inside
    rw [← Option.some.inj (leads.symm.trans step)]
    exact fun _ _ => same.trans (before (by simp) (by simp))
  | split => cases step
  | process => cases step

/-- An item that may not leave its locality is settled where it was enqueued. -/
theorem settledAt_next_local {work : ScheduledWork} {answers : Answers} {call call' : ServiceCall}
    {start : HierarchyAddress} (guides : (SchedulingPolicy.tree policy).Guides size)
    (bound : work.enqueueRemote = false) (inside : InNetwork size call.addr)
    (before : (call.stage = .schedule → call.addr = start) ∧ call.stage ≠ .scheduleDown ∧
      call.addr.rank = start.rank)
    (step : next size (.tree policy) work answers call = some call') :
    (call'.stage = .schedule → call'.addr = start) ∧ call'.stage ≠ .scheduleDown ∧
      call'.addr.rank = start.rank := by
  obtain ⟨stage, here⟩ := call
  cases stage with
  | schedule =>
    obtain ⟨reached, leads, -, keeps, -⟩ :=
      scheduleAt_advances work answers guides inside
    rw [← Option.some.inj (leads.symm.trans step), keeps bound]
    exact ⟨by simp, by simp, before.2.2⟩
  | scheduleDown => exact absurd rfl before.2.1
  | scheduleLocal =>
    obtain ⟨reached, leads, -, same, notUp, notDown⟩ :=
      scheduleLocalAt_advances (.tree policy) work answers inside
    rw [← Option.some.inj (leads.symm.trans step)]
    exact ⟨fun up => absurd up notUp, notDown, same.trans before.2.2⟩
  | split => cases step
  | process => cases step

/-- A policy that follows a plan within the network delivers every item to its target. -/
theorem Follows.delivers (follows : policy.Follows (height size) plan)
    (wayInside : WayInside size plan) : Delivers size policy := by
  intro work start inside history call run final
  have guides := follows.guides wayInside
  have stays {call answers call'} (before : InNetwork size call.addr)
      (step : (dispatching size (.tree policy) work start).step call answers call') :
      InNetwork size call'.addr := by
    obtain ⟨reached, leads, advances, -⟩ :=
      exists_next work guides before (not_final_of_next step) answers
    rw [← Option.some.inj (leads.symm.trans step)]
    exact advances.1
  refine ⟨fun bound => ?_, fun remote running => ?_⟩
  · have settled := run.invariant (P := fun call => InNetwork size call.addr ∧
        (call.stage = .schedule → call.addr = start) ∧ call.stage ≠ .scheduleDown ∧
        call.addr.rank = start.rank) ⟨inside, fun _ => rfl, by simp [dispatching], rfl⟩
      fun before step =>
        ⟨stays before.1 step, settledAt_next_local guides bound before.1 before.2 step⟩
    exact settled.2.2.2
  · have settled := (run.always (P := fun call => InNetwork size call.addr ∧
        SettledAt ((overlay (height size)).target plan work.path).rank call)
      ⟨inside, fun up => absurd rfl up⟩
      (fun before alive step =>
        ⟨stays before.1 step, settledAt_next follows wayInside remote alive before.1 before.2 step⟩)
      running).1.2
    refine ⟨_, follows.getTarget_eq work.path, ?_⟩
    rcases final with last | last <;> exact settled (by simp [last]) (by simp [last])

/-- In every network, under the policy of every mapping in ascending order and under every uniform
policy, the dispatch of a work item ends, and it ends on the locality of the target of its path. -/
theorem dispatch_ends_at_target {size : Nat} (nodes : 0 < size) :
    (∀ (g : Nat) (mapping : List Nat), mapping.length = 2 ^ g → mapping.Pairwise (· ≤ ·) →
      (∀ rank ∈ mapping, rank < size) → (getRootOfNetworkSize size).layer ≤ g →
      ∃ tree, toDecisionTree (1 <<< (getRootOfNetworkSize size).layer) mapping = some tree ∧
        Dispatches size (.tree ⟨getRootOfNetworkSize size, g, tree⟩) ∧
        Delivers size ⟨getRootOfNetworkSize size, g, tree⟩) ∧
    ∀ granularity, ∃ policy, createUniform size granularity = some policy ∧
      Dispatches size (.tree policy) ∧ Delivers size policy := by
  constructor
  · intro g mapping tasks ascending ranks shallow
    rw [layer_getRootOfNetworkSize] at shallow
    obtain ⟨tree, built, follows⟩ := exists_follows tasks shallow
    have wayInside : WayInside size (planOf mapping (height size) g) :=
      fun _ _ visits => rank_lt_of_visits ascending tasks ranks visits
    exact ⟨tree, built, (follows.guides wayInside).dispatches, follows.delivers wayInside⟩
  · intro granularity
    obtain ⟨mapping, policy, balanced, made, -, follows⟩ := createUniform_eq nodes granularity
    have wayInside :
        WayInside size (planOf mapping (height size) (max (height size) granularity)) :=
      fun _ _ visits =>
        rank_lt_of_visits balanced.ascending balanced.length balanced.ranks visits
    exact ⟨policy, made, (follows.guides wayInside).dispatches, follows.delivers wayInside⟩

/-- The dispatch in networks of five nodes. -/
theorem dispatch_ends_at_target_five :
    (∀ (g : Nat) (mapping : List Nat), mapping.length = 2 ^ g → mapping.Pairwise (· ≤ ·) →
      (∀ rank ∈ mapping, rank < 5) → (getRootOfNetworkSize 5).layer ≤ g →
      ∃ tree, toDecisionTree (1 <<< (getRootOfNetworkSize 5).layer) mapping = some tree ∧
        Dispatches 5 (.tree ⟨getRootOfNetworkSize 5, g, tree⟩) ∧
        Delivers 5 ⟨getRootOfNetworkSize 5, g, tree⟩) ∧
    ∀ granularity, ∃ policy, createUniform 5 granularity = some policy ∧
      Dispatches 5 (.tree policy) ∧ Delivers 5 policy :=
  dispatch_ends_at_target (by decide)

end TreeSchedulingPolicy

/-! ## The random policy -/

namespace SchedulingPolicy

open SchedulerService

variable {size : Nat} {path : TaskPath} {addr : HierarchyAddress}

/-- A node is involved in a task by its layer: the root always, the others as soon as the task is
three levels deeper than they are. -/
theorem isInvolved_createRandom (size : Nat) (addr : HierarchyAddress) (path : TaskPath) :
    (createRandom size).isInvolved addr path = some true ↔
      addr = getRootOfNetworkSize size ∨ height size + 3 ≤ path.getLength + addr.layer := by
  rw [createRandom, isInvolved, layer_getRootOfNetworkSize]
  split
  · rename_i root
    simp [root]
  · rename_i notRoot
    simp only [notRoot, false_or, Option.some.injEq, decide_eq_true_eq]
    omega

/-- Whatever is drawn, the random policy turns unless a task is too short to leave the node. -/
theorem decide_createRandom (size : Nat) (draw : Rat) (addr : HierarchyAddress) (path : TaskPath) :
    ∃ turn, (createRandom size).decide draw addr path = some (.ofTurn turn) ∧
      (turn = none ↔ path.getLength < 3 ∨ path.getLength + addr.layer = height size + 3) := by
  rw [createRandom, decide, layer_getRootOfNetworkSize]
  by_cases short : path.getLength < 3
  · exact ⟨none, if_pos short, by simp [short]⟩
  · rw [if_neg short]
    by_cases level : (path.getLength : Int) - 3 = (height size : Int) - addr.layer
    · exact ⟨none, if_pos level, by simp; omega⟩
    · rw [if_neg level]
      by_cases low : draw < 1 / 2
      · exact ⟨some .left, if_pos low, by simp; omega⟩
      · exact ⟨some .right, if_neg low, by simp; omega⟩

/-- The random policy guides the dispatch. -/
theorem guides_createRandom (size : Nat) : (createRandom size).Guides size where
  asks addr path := by
    rw [createRandom, isInvolved]
    split <;> exact ⟨_, rfl⟩
  root path := (isInvolved_createRandom size _ path).mpr (Or.inl rfl)
  longer {addr path} s involved := by
    rw [isInvolved_createRandom] at involved ⊢
    refine involved.imp_right fun deep => ?_
    rw [TaskPath.getLength, List.length_cons]
    rw [TaskPath.getLength] at deep
    omega
  turns {addr path} inside involved draw := by
    obtain ⟨turn, decided, stays⟩ := decide_createRandom size draw addr path
    refine ⟨turn, decided, fun virtual s turned => ?_⟩
    have lower := (child_inNetwork inside virtual s).2
    have moves : ¬ (path.getLength < 3 ∨ path.getLength + addr.layer = height size + 3) := by
      rw [← stays, turned]
      simp
    rw [isInvolved_createRandom] at involved ⊢
    right
    rcases involved with root | deep
    · have top : addr.layer = height size := by rw [root, layer_getRootOfNetworkSize]
      omega
    · omega

/-- Under the random policy an involved node that keeps a task has the layer that belongs to the
depth of the task. -/
theorem layer_of_scheduleLocal {work : ScheduledWork} {answers : Answers} {call' : ServiceCall}
    (inside : InNetwork size addr) (running : ∀ rank, answers.running rank = true)
    (step : scheduleDownAt size (createRandom size) work answers addr = some call')
    (kept : call'.stage = .scheduleLocal) :
    addr.layer = height size - (work.path.getLength - 3) := by
  obtain ⟨involved, asked⟩ := (guides_createRandom size).asks addr work.path
  cases involved with
  | false =>
    rw [(scheduleDownAt_of_not_involved answers (guides_createRandom size) asked).2] at step
    rw [← Option.some.inj step] at kept
    cases kept
  | true =>
    obtain ⟨turn, decided, stays⟩ := decide_createRandom size answers.draw addr work.path
    rw [scheduleDownAt_of_turn asked decided] at step
    have place := (isInvolved_createRandom size addr work.path).mp asked
    have bound := (inNetwork_iff.mp inside).2.2
    have high : addr.layer = height size ∨ height size + 3 ≤ work.path.getLength + addr.layer :=
      place.imp_left fun root => by rw [root, layer_getRootOfNetworkSize]
    cases turn with
    | none =>
      have stay := stays.mp rfl
      omega
    | some s =>
      cases leaf : addr.isLeaf with
      | true =>
        have low : addr.layer = 0 := beq_iff_eq.mp leaf
        omega
      | false =>
        simp only [takeTurn, leaf, Bool.false_eq_true, if_false, running, if_true] at step
        rw [← Option.some.inj step] at kept
        split at kept <;> cases kept

/-- In every network, whatever the random policy draws, the dispatch of a work item ends, and while
no rank is reported as failed the node that keeps the item is on the layer that belongs to the depth
of the task: the root for the first three levels, one layer less for each further one, a leaf in the
end. -/
theorem random_dispatch_ends (size : Nat) :
    Dispatches size (createRandom size) ∧
    ∀ (work : ScheduledWork) (start : HierarchyAddress), InNetwork size start →
      ∀ history call, (dispatching size (createRandom size) work start).Run history call →
        System.Meets (fun call answers => ∀ call',
          next size (createRandom size) work answers call = some call' →
          call.stage = .scheduleDown → call'.stage = .scheduleLocal →
          (∀ rank, answers.running rank = true) →
          call.addr.layer = height size - (work.path.getLength - 3)) history := by
  have guides := guides_createRandom size
  refine ⟨guides.dispatches, fun work start inside history call run => ?_⟩
  refine run.meets (I := fun call => InNetwork size call.addr) inside ?keeps ?holds
  case keeps =>
    intro before answers after member step
    obtain ⟨reached, leads, advances, -⟩ :=
      exists_next work guides member (not_final_of_next step) answers
    rw [← Option.some.inj (leads.symm.trans step)]
    exact advances.1
  case holds =>
    intro before answers after member _ call' leads down kept running
    obtain ⟨stage, here⟩ := before
    obtain rfl : stage = .scheduleDown := down
    exact layer_of_scheduleLocal member running leads kept

end SchedulingPolicy

end AllScale
