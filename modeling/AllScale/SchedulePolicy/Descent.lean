import AllScale.SchedulePolicy.Uniform

/-!
# The descent of a work item

Every `scheduler_service` on the way of a work item asks the policy again what to do with it:
`schedule_down` hands the item to a child, or schedules it on its own locality. In the policy of a
mapping in ascending order the services follow the plan of the mapping, so wherever on the way of a
task path the descent starts, it ends at the target of the path.
-/

namespace AllScale

open TokenTree HierarchyAddress

/-- The addresses by which a `scheduler_service` navigates. -/
structure SchedulerService where
  /-- The address of the node itself. -/
  here : HierarchyAddress
  /-- The address of its left child. -/
  left : HierarchyAddress
  /-- The address of its right child, or of the left one when there is no right child. -/
  right : HierarchyAddress

/-- The constructor of `scheduler_service` in a network of `size` localities. -/
def SchedulerService.create (size : Nat) (here : HierarchyAddress) : SchedulerService where
  here := here
  left := if here.isLeaf then ⟨0, 0⟩ else here.getLeftChild
  right :=
    if here.isLeaf then ⟨0, 0⟩
    else if here.getRightChild.rank ≥ size then here.getLeftChild
    else here.getRightChild

/-- What `schedule_down` does with a work item. -/
inductive Handling where
  /-- The item goes to the parent, where it is scheduled anew. -/
  | scheduleAtParent
  /-- The item is executed on the locality of the node. -/
  | scheduleLocal
  /-- The item goes on to a child. -/
  | scheduleDown (child : HierarchyAddress)
  deriving DecidableEq

/-- `scheduler_service::schedule_down` for a work item with a task path; `running` tells which ranks
have not failed. A `none` is a decision read from outside of the tree, or the decision that the
item is done, which an assertion rules out. -/
def SchedulerService.scheduleDown (service : SchedulerService) (policy : TreeSchedulingPolicy)
    (running : Nat → Bool) (path : TaskPath) : Option Handling := do
  let isInvolved ← policy.isInvolved service.here path
  if isInvolved then
    let d ← policy.decide service.here path
    if d = .done then none
    else if d = .stay ∨ service.here.isLeaf then some .scheduleLocal
    else
      let targetLeft := d = .left ∨ service.right = service.left
      if ¬ targetLeft ∧ ¬ running service.right.rank then some .scheduleLocal
      else if targetLeft then some (.scheduleDown service.left)
      else some (.scheduleDown service.right)
  else some .scheduleAtParent

/-- The nodes that a work item passes when `schedule_down` is called at a node, until it is
scheduled locally; `fuel` bounds their number. -/
def descend (size : Nat) (policy : TreeSchedulingPolicy) (running : Nat → Bool) (path : TaskPath) :
    (fuel : Nat) → HierarchyAddress → Option (List HierarchyAddress)
  | 0, _ => none
  | fuel + 1, here => do
    match ← (SchedulerService.create size here).scheduleDown policy running path with
    | .scheduleAtParent => none
    | .scheduleLocal => some [here]
    | .scheduleDown child => some (here :: (← descend size policy running path fuel child))

/-- From every node that may start to schedule the tasks of a path, the descent ends at the target
of the path: it passes nodes of the network that are involved in the path, and no decision on the
way is that the item is done. -/
def Descends (size : Nat) (policy : TreeSchedulingPolicy) : Prop :=
  ∀ (path : TaskPath) (start : HierarchyAddress),
    (start = policy.root ∨
      ∃ s parent, path = s :: parent ∧ policy.isInvolved start parent = some true) →
    ∃ fuel visited target, descend size policy (fun _ => true) path fuel start = some visited ∧
      policy.getTarget path = some target ∧ visited.getLast? = some target ∧
      ∀ addr ∈ visited, policy.isInvolved addr path = some true ∧ InNetwork size addr ∧
        policy.decide addr path ≠ some .done

namespace TreeSchedulingPolicy

variable {size k g : Nat} {plan : TaskPath → Option Side} {mapping : List Nat}
variable {policy : TreeSchedulingPolicy} {path : TaskPath} {here : HierarchyAddress}

/-! ## One call -/

namespace Follows

/-- The nodes on the way of a path are involved in it. -/
theorem isInvolved_of_visits (follows : policy.Follows k plan)
    (visits : (overlay k).Visits plan path here) : policy.isInvolved here path = some true := by
  obtain ⟨involved, returns, meets⟩ := follows.isInvolved_iff here path
  rw [returns, meets.mpr visits]

/-- A node that is involved in a path lies on its way. -/
theorem visits_of_isInvolved (follows : policy.Follows k plan)
    (involved : policy.isInvolved here path = some true) : (overlay k).Visits plan path here := by
  obtain ⟨answer, returns, meets⟩ := follows.isInvolved_iff here path
  rw [returns] at involved
  exact meets.mp (Option.some.inj involved)

/-- At the target of a path a work item is scheduled locally. -/
theorem scheduleDown_target (follows : policy.Follows k plan) (running : Nat → Bool)
    (path : TaskPath) :
    (SchedulerService.create size ((overlay k).target plan path)).scheduleDown policy running path =
      some .scheduleLocal := by
  have involved := follows.isInvolved_of_visits (LayeredTree.visits_target plan path)
  have stays : policy.decide ((overlay k).target plan path) path = some .stay := by
    rw [follows.decide_eq]
    split
    · rfl
    · rename_i inner
      rw [LayeredTree.steer_target inner]
      rfl
  unfold SchedulerService.scheduleDown SchedulerService.create
  simp only [involved, stays, Option.bind_eq_bind, Option.bind_some, if_true, true_or, reduceCtorEq,
    if_false]

/-- On the way to its target a work item goes on to the child that the plan turns to, when that
child is in the network. -/
theorem scheduleDown_of_steer (follows : policy.Follows k plan)
    (visits : (overlay k).Visits plan path here) {s : Side} (inner : (overlay k).layer here ≠ 0)
    (steer : (overlay k).steer plan here path = some s)
    (inside : ((overlay k).child s here).rank < size) :
    (SchedulerService.create size here).scheduleDown policy (fun _ => true) path =
      some (.scheduleDown ((overlay k).child s here)) := by
  have involved := follows.isInvolved_of_visits visits
  have virtual : here.isLeaf = false := beq_eq_false_iff_ne.mpr inner
  have decided : policy.decide here path = some (.ofTurn (some s)) := by
    rw [follows.decide_eq, if_neg inner, steer]
  unfold SchedulerService.scheduleDown SchedulerService.create
  cases s with
  | left =>
    simp only [involved, decided, virtual, ScheduleDecision.ofTurn, Option.bind_eq_bind,
      Option.bind_some, if_true, if_false, reduceCtorEq, Bool.false_eq_true, or_self, true_or,
      not_true_eq_false, false_and]
    rfl
  | right =>
    have inside : here.getRightChild.rank < size := inside
    have apart : here.getRightChild ≠ here.getLeftChild := fun same =>
      absurd ((overlay k).child_injective (s := .right) (t := .left) visits.mem inner same)
        (by simp)
    simp only [involved, decided, virtual, ScheduleDecision.ofTurn, Option.bind_eq_bind,
      Option.bind_some, if_true, if_false, reduceCtorEq, Bool.false_eq_true, or_self,
      if_neg (Nat.not_le.mpr inside), apart, not_true_eq_false, and_false, ge_iff_le]
    rfl

/-! ## The whole descent -/

/-- When the way of a path stays in the network, the descent from any node on the way follows it to
the target. -/
theorem descend_eq (follows : policy.Follows k plan)
    (inside : ∀ addr, (overlay k).Visits plan path addr → addr.rank < size)
    (visits : (overlay k).Visits plan path here) :
    ∃ fuel visited, descend size policy (fun _ => true) path fuel here = some visited ∧
      visited.getLast? = some ((overlay k).target plan path) ∧
      ∀ addr ∈ visited, (overlay k).Visits plan path addr := by
  refine visits.induct (P := fun here => ∃ fuel visited,
    descend size policy (fun _ => true) path fuel here = some visited ∧
      visited.getLast? = some ((overlay k).target plan path) ∧
      ∀ addr ∈ visited, (overlay k).Visits plan path addr) ?stop ?down
  case stop =>
    refine ⟨1, [(overlay k).target plan path], ?_, rfl, fun addr found => ?_⟩
    · rw [descend, follows.scheduleDown_target]
      rfl
    · rw [List.mem_singleton.mp found]
      exact LayeredTree.visits_target plan path
  case down =>
    intro here s visits onWay inner steer next ⟨fuel, visited, returns, last, passes⟩
    refine ⟨fuel + 1, here :: visited, ?_, ?_, fun addr found => ?_⟩
    · rw [descend, follows.scheduleDown_of_steer visits inner steer (inside _ next)]
      simp only [Option.bind_eq_bind, Option.bind_some, returns]
    · rw [List.getLast?_cons, last]
      rfl
    · rcases List.mem_cons.mp found with here | further
      · rwa [here]
      · exact passes addr further

end Follows

/-- In ascending order the way of every path stays in the network. -/
theorem rank_lt_of_visits (ascending : mapping.Pairwise (· ≤ ·)) (tasks : mapping.length = 2 ^ g)
    (ranks : ∀ rank ∈ mapping, rank < size)
    (visits : (overlay (height size)).Visits (planOf mapping (height size) g) path here) :
    here.rank < size := by
  have covered (path : TaskPath) :
      ((Block.whole (height size) (2 ^ g)).follow mapping path).addr.rank < size := by
    have inside := inside_follow ascending tasks (ranks_lt_two_pow ranks) path _ (Nat.le_refl _)
      (Or.inr rfl)
    apply Nat.lt_of_le_of_lt inside.1
    exact ranks _ (curMin_follow_mem tasks path)
  rcases visits with root | visits
  · have first := covered []
    rw [← spot_planOf] at first
    rwa [root]
  · obtain ⟨earlier, -, reached⟩ := visits
    have later := covered (.left :: earlier)
    rw [← spot_planOf, LayeredTree.spot_cons] at later
    rwa [← reached]

/-- The policy of a mapping in ascending order guides every descent to the target. -/
theorem descends_of_ascending
    (follows : policy.Follows (height size) (planOf mapping (height size) g))
    (ascending : mapping.Pairwise (· ≤ ·)) (tasks : mapping.length = 2 ^ g)
    (ranks : ∀ rank ∈ mapping, rank < size) : Descends size policy := by
  intro path start begins
  have visits : (overlay (height size)).Visits (planOf mapping (height size) g) path start := by
    rcases begins with root | ⟨s, parent, longer, involved⟩
    · rw [root, follows.root]
      exact Or.inl rfl
    · rw [longer]
      exact (follows.visits_of_isInvolved involved).mono (List.suffix_cons s parent)
  obtain ⟨fuel, visited, returns, last, passes⟩ := follows.descend_eq
    (fun _ visits => rank_lt_of_visits ascending tasks ranks visits) visits
  refine ⟨fuel, visited, _, returns, follows.getTarget_eq path, last, fun addr found => ?_⟩
  have visits := passes addr found
  have inside : InNetwork size addr :=
    inNetwork_iff_mem.mpr ⟨visits.mem, rank_lt_of_visits ascending tasks ranks visits⟩
  exact ⟨follows.isInvolved_of_visits visits, inside, follows.decide_ne_done addr path⟩

/-- In every network, in the policy of every mapping in ascending order and in every uniform policy,
the descent of a work item ends at the target of its path. -/
theorem descents_reach_target {size : Nat} (nodes : 0 < size) :
    (∀ (g : Nat) (mapping : List Nat), mapping.length = 2 ^ g → mapping.Pairwise (· ≤ ·) →
      (∀ rank ∈ mapping, rank < size) → (getRootOfNetworkSize size).layer ≤ g →
      ∃ tree, toDecisionTree (1 <<< (getRootOfNetworkSize size).layer) mapping = some tree ∧
        Descends size ⟨getRootOfNetworkSize size, g, tree⟩) ∧
    ∀ granularity, ∃ policy, createUniform size granularity = some policy ∧
      Descends size policy := by
  constructor
  · intro g mapping tasks ascending ranks shallow
    rw [layer_getRootOfNetworkSize] at shallow
    obtain ⟨tree, built, follows⟩ := exists_follows tasks shallow
    exact ⟨tree, built, descends_of_ascending follows ascending tasks ranks⟩
  · intro granularity
    obtain ⟨mapping, policy, balanced, made, -, follows⟩ := createUniform_eq nodes granularity
    exact ⟨policy, made, descends_of_ascending follows balanced.ascending balanced.length
      balanced.ranks⟩

/-- The descents in networks of five nodes. -/
theorem descents_reach_target_five :
    (∀ (g : Nat) (mapping : List Nat), mapping.length = 2 ^ g → mapping.Pairwise (· ≤ ·) →
      (∀ rank ∈ mapping, rank < 5) → (getRootOfNetworkSize 5).layer ≤ g →
      ∃ tree, toDecisionTree (1 <<< (getRootOfNetworkSize 5).layer) mapping = some tree ∧
        Descends 5 ⟨getRootOfNetworkSize 5, g, tree⟩) ∧
    ∀ granularity, ∃ policy, createUniform 5 granularity = some policy ∧ Descends 5 policy :=
  descents_reach_target (by decide)

end TreeSchedulingPolicy

end AllScale
