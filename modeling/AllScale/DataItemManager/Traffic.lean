import Mathlib.Data.Finset.Disjoint
import AllScale.Lib.Run
import AllScale.Lib.TokenMessages
import AllScale.DataItemManager.Grid

/-!
# Ownership transfers that overlap

Here the calls between nodes are messages: a locked section runs when its message is delivered,
and the calls it makes are in flight afterwards. Any number of acquires can be under way and
their messages are delivered in any order. On every edge of the overlay an element is either on
record, or claimed by a message on its way up, or withdrawn by one on its way down; when all
messages have been delivered, what is on record leads to the one leaf that owns the element.
-/

namespace AllScale

open TokenTree HierarchyAddress Transition

/-- A call that has not reached its node yet. -/
inductive Message (α : Type) where
  /-- `acquire_ownership_for(addr, child, ref, missing)`. -/
  | acquireOwnershipFor (addr child : HierarchyAddress) (missing : Finset α)
  /-- `collect_child_ownerships(addr, ref, missing)`. -/
  | collectChildOwnerships (addr : HierarchyAddress) (missing : Finset α)

/-- The index entries of all nodes and the calls in flight. -/
structure Traffic (α : Type) where
  /-- The index entry of every virtual node. -/
  index : HierarchyAddress → IndexEntry α
  /-- The calls in flight. -/
  inFlight : List (Message α)

/-- An ownership is acquired at a leaf, or a call is delivered. -/
inductive TrafficAction (α : Type) where
  /-- `acquire_ownership` is called at a leaf. -/
  | acquire (leaf : HierarchyAddress) (missing : Finset α)
  /-- A call reaches its node. -/
  | deliver (message : Message α)

variable {α : Type}

namespace Traffic

/-- Nothing has been acquired yet. -/
def initial : Traffic α := ⟨fun _ => .empty, []⟩

variable [DecidableEq α]

/-- `acquire_ownership`: its locked section and the call it makes. -/
def acquireOwnership (size : Nat) (s : Traffic α) (leaf : HierarchyAddress) (missing : Finset α) :
    Traffic α where
  index := Function.update s.index leaf ((s.index leaf).acquireOwnership missing)
  inFlight :=
    let service := IndexService.create size leaf
    s.inFlight ++
      if service.isRoot then [] else [.acquireOwnershipFor service.parent leaf missing]

/-- The locked section that a call runs at its node, and the calls it makes. A collect for a right
child that does not exist goes to the left one here; the source asserts that `right_id_` is
valid, and without assertions nobody would receive it. -/
def handle (size : Nat) (index : HierarchyAddress → IndexEntry α) :
    Message α → (HierarchyAddress → IndexEntry α) × List (Message α)
  | .acquireOwnershipFor addr child missing =>
    let service := IndexService.create size addr
    let claimed := (index addr).acquireOwnershipFor service child missing
    let newChild := if child == service.right then service.left else service.right
    (Function.update index addr claimed.entry,
      (if claimed.missing = ∅ ∨ service.isRoot then []
        else [.acquireOwnershipFor service.parent addr claimed.missing]) ++
      if claimed.part = ∅ then [] else [.collectChildOwnerships newChild claimed.part])
  | .collectChildOwnerships addr missing =>
    if addr.isLeaf then (Function.update index addr ((index addr).collectAtLeaf missing), [])
    else
      let service := IndexService.create size addr
      let collected := (index addr).collectChildOwnerships missing
      (Function.update index addr collected.entry,
        (if collected.right = ∅ then []
          else [.collectChildOwnerships service.right collected.right]) ++
        if collected.left = ∅ then [] else [.collectChildOwnerships service.left collected.left])

end Traffic

/-- A call that is made unless it would be for nothing. -/
theorem mem_send {skip : Prop} [Decidable skip] {message sent : Message α} :
    sent ∈ (if skip then [] else [message]) ↔ ¬ skip ∧ sent = message := by
  by_cases h : skip <;> simp [h]

/-- How often a call that is made unless it would be for nothing counts. -/
theorem countP_send (counted : Message α → Bool) (skip : Prop) [Decidable skip]
    (message : Message α) :
    (if skip then [] else [message]).countP counted =
      if ¬ skip ∧ counted message = true then 1 else 0 := by
  by_cases h : skip <;> simp [h, List.countP_singleton]

/-- The message that is delivered was in flight, and so were those that are left. -/
theorem mem_delivered {messages before after : List (Message α)} {message : Message α}
    (inFlight : messages = before ++ message :: after) :
    message ∈ messages ∧ ∀ earlier ∈ before ++ after, earlier ∈ messages := by
  subst inFlight
  constructor
  · exact List.mem_append_right _ List.mem_cons_self
  · intro earlier found
    rcases List.mem_append.mp found with left | right
    · exact List.mem_append_left _ left
    · exact List.mem_append_right _ (List.mem_cons_of_mem _ right)

variable [DecidableEq α] {k : Nat}

/-- The steps in a network of `2 ^ k` localities. Ownership is acquired for what the leaf does not
have, and any call in flight can be the next to be delivered. -/
inductive TrafficStep (k : Nat) : Traffic α → TrafficAction α → Traffic α → Prop
  | acquire {s : Traffic α} {leaf : HierarchyAddress} {missing : Finset α} :
      InNetwork (2 ^ k) leaf → leaf.isLeaf = true → Disjoint (s.index leaf).full missing →
      TrafficStep k s (.acquire leaf missing) (s.acquireOwnership (2 ^ k) leaf missing)
  | deliver {s : Traffic α} {message : Message α} {before after : List (Message α)} :
      s.inFlight = before ++ message :: after →
      TrafficStep k s (.deliver message)
        ⟨(Traffic.handle (2 ^ k) s.index message).1,
          before ++ after ++ (Traffic.handle (2 ^ k) s.index message).2⟩

/-- Overlapping acquires of one data item. -/
def traffic (α : Type) [DecidableEq α] (k : Nat) : System (Traffic α) (TrafficAction α) where
  start := .initial
  step := TrafficStep k

/-- An element has been acquired in a run. -/
def AcquiredIn (history : List (Traffic α × TrafficAction α)) (x : α) : Prop :=
  ∃ s leaf missing, (s, TrafficAction.acquire leaf missing) ∈ history ∧ x ∈ missing

/-! ## Counting messages -/

/-- A call that claims an element for a node. -/
def Message.claims (x : α) (n : HierarchyAddress) : Message α → Bool
  | .acquireOwnershipFor _ child missing => child = n ∧ x ∈ missing
  | .collectChildOwnerships _ _ => false

/-- A call that withdraws an element from a node. -/
def Message.withdraws (x : α) (n : HierarchyAddress) : Message α → Bool
  | .acquireOwnershipFor _ _ _ => false
  | .collectChildOwnerships addr missing => addr = n ∧ x ∈ missing

/-- A call goes from a node to its parent, or to a node below the root. -/
def Message.Addressed (k : Nat) : Message α → Prop
  | .acquireOwnershipFor addr child _ =>
    InNetwork (2 ^ k) child ∧ child ≠ getRootOfNetworkSize (2 ^ k) ∧ addr = child.getParent
  | .collectChildOwnerships addr _ =>
    InNetwork (2 ^ k) addr ∧ addr ≠ getRootOfNetworkSize (2 ^ k)

namespace Traffic

/-- The cells of one element. -/
def grid (x : α) (s : Traffic α) : Grid HierarchyAddress := fun addr => (s.index addr).cell x

/-- The number of calls in flight that claim an element for a node. -/
def claims (x : α) (s : Traffic α) (n : HierarchyAddress) : Nat :=
  s.inFlight.countP (Message.claims x n)

/-- The number of calls in flight that withdraw an element from a node. -/
def withdrawals (x : α) (s : Traffic α) (n : HierarchyAddress) : Nat :=
  s.inFlight.countP (Message.withdraws x n)

/-- What holds between any two deliveries. -/
structure Flowing (k : Nat) (s : Traffic α) : Prop where
  /-- The calls in flight go along the edges of the overlay. -/
  addressed : ∀ message ∈ s.inFlight, message.Addressed k
  /-- On every edge each element is accounted for. -/
  flow : ∀ x, (overlay k).Flow (s.grid x) (s.claims x) (s.withdrawals x)

/-- Replacing one entry replaces one cell. -/
theorem grid_update (x : α) (s : Traffic α) (addr : HierarchyAddress) (entry : IndexEntry α)
    (inFlight : List (Message α)) :
    (⟨Function.update s.index addr entry, inFlight⟩ : Traffic α).grid x =
      Function.update (s.grid x) addr (entry.cell x) := by
  funext n
  unfold grid
  by_cases same : n = addr
  · subst same
    simp
  · simp [same]

/-- In the initial state nothing is in flight and nothing on record. -/
theorem flowing_initial : (initial : Traffic α).Flowing k := by
  refine ⟨fun message found => absurd found List.not_mem_nil, fun x => ?_⟩
  have cells (n : HierarchyAddress) :
      (initial : Traffic α).grid x n = ⟨false, false, false⟩ := IndexEntry.cell_empty x
  refine ⟨fun n _ _ => ?_, fun n _ _ => ?_, fun n _ _ => ?_, fun n _ _ => ?_, fun n _ sent => ?_⟩
  · rw [cells]
  · rw [cells]
    exact ⟨rfl, rfl⟩
  · rw [cells]
  · unfold LayeredTree.recorded
    rw [cells, cells]
    cases (overlay k).side n <;> rfl
  · exact absurd rfl sent

/-! ## One step -/

/-- Acquiring ownership at a leaf keeps the flow. -/
theorem Flowing.acquire {s : Traffic α} (flowing : s.Flowing k) {leaf : HierarchyAddress}
    {missing : Finset α} (member : InNetwork (2 ^ k) leaf) (low : leaf.isLeaf = true)
    (apart : Disjoint (s.index leaf).full missing) :
    (s.acquireOwnership (2 ^ k) leaf missing).Flowing k := by
  have flat : (overlay k).layer leaf = 0 := IndexService.isLeaf_iff.mp low
  refine ⟨fun message found => ?_, fun x => ?_⟩
  · unfold acquireOwnership at found
    rcases List.mem_append.mp found with before | new
    · exact flowing.addressed message before
    · obtain ⟨inner, rfl⟩ := mem_send.mp new
      exact ⟨member, fun isRoot => inner (IndexService.isRoot_create.mpr isRoot), rfl⟩
  · have flow := flowing.flow x
    have grid : (s.acquireOwnership (2 ^ k) leaf missing).grid x =
        Function.update (s.grid x) leaf (((s.index leaf).acquireOwnership missing).cell x) :=
      grid_update x s leaf _ _
    have withdrawn : (s.acquireOwnership (2 ^ k) leaf missing).withdrawals x = s.withdrawals x := by
      funext n
      unfold withdrawals acquireOwnership
      rw [List.countP_append, countP_send]
      simp [Message.withdraws]
    rw [IndexEntry.cell_acquireOwnership] at grid
    rw [grid, withdrawn]
    have claimed (n : HierarchyAddress) (notRoot : n ≠ (overlay k).root) :
        (s.acquireOwnership (2 ^ k) leaf missing).claims x n =
          s.claims x n + if leaf = n ∧ x ∈ missing then 1 else 0 := by
      unfold claims acquireOwnership
      rw [List.countP_append, countP_send]
      congr 1
      by_cases here : leaf = n
      · have inner : ¬ (IndexService.create (2 ^ k) leaf).isRoot = true := fun isRoot =>
          notRoot (here ▸ IndexService.isRoot_create.mp isRoot)
        simp [Message.claims, here ▸ inner, here]
      · simp [Message.claims, here]
    by_cases inside : x ∈ missing
    · have absent : (s.grid x leaf).held = false := by
        have outside := Finset.disjoint_right.mp apart inside
        simpa [Traffic.grid] using outside
      have cell : ({ (s.index leaf).cell x with
          held := ((s.index leaf).cell x).held || decide (x ∈ missing) } : Cell) =
          { s.grid x leaf with held := true } := by
        rw [decide_eq_true inside, Bool.or_true]
        rfl
      rw [cell]
      apply flow.take member flat absent
      intro n notRoot
      rw [claimed n notRoot]
      simp [inside, eq_comm]
    · have cell : ({ (s.index leaf).cell x with
          held := ((s.index leaf).cell x).held || decide (x ∈ missing) } : Cell) =
          s.grid x leaf := by
        rw [decide_eq_false inside, Bool.or_false]
        rfl
      rw [cell, Function.update_eq_self]
      apply flow.of_claims
      intro n notRoot
      rw [claimed n notRoot, if_neg (fun h => inside h.2), Nat.add_zero]

section Delivering

variable {s : Traffic α} {message : Message α} {before after : List (Message α)}

/-- What the delivery of a call leaves behind. -/
def delivered (k : Nat) (s : Traffic α) (message : Message α) (before after : List (Message α)) :
    Traffic α :=
  let result := handle (2 ^ k) s.index message
  ⟨result.1, before ++ after ++ result.2⟩

variable (inFlight : s.inFlight = before ++ message :: after)

include inFlight

/-- The counts of claims before and after a delivery. -/
theorem claims_delivered (x : α) (n : HierarchyAddress) :
    (s.delivered k message before after).claims x n +
        (if message.claims x n = true then 1 else 0) =
      s.claims x n + (handle (2 ^ k) s.index message).2.countP (Message.claims x n) := by
  unfold claims delivered
  rw [inFlight]
  simp only [List.countP_append, List.countP_cons]
  omega

/-- The counts of withdrawals before and after a delivery. -/
theorem withdrawals_delivered (x : α) (n : HierarchyAddress) :
    (s.delivered k message before after).withdrawals x n +
        (if message.withdraws x n = true then 1 else 0) =
      s.withdrawals x n + (handle (2 ^ k) s.index message).2.countP (Message.withdraws x n) := by
  unfold withdrawals delivered
  rw [inFlight]
  simp only [List.countP_append, List.countP_cons]
  omega

/-- A claim that is delivered was in flight. -/
theorem claims_ne_zero {x : α} {n : HierarchyAddress} (claims : message.claims x n = true) :
    s.claims x n ≠ 0 := by
  apply Nat.ne_of_gt
  apply List.countP_pos_iff.mpr
  refine ⟨message, ?_, claims⟩
  rw [inFlight]
  exact List.mem_append_right _ List.mem_cons_self

/-- A withdrawal that is delivered was in flight. -/
theorem withdrawals_ne_zero {x : α} {n : HierarchyAddress}
    (withdraws : message.withdraws x n = true) : s.withdrawals x n ≠ 0 := by
  apply Nat.ne_of_gt
  apply List.countP_pos_iff.mpr
  refine ⟨message, ?_, withdraws⟩
  rw [inFlight]
  exact List.mem_append_right _ List.mem_cons_self

end Delivering

section Claiming

variable {child : HierarchyAddress} (member : InNetwork (2 ^ k) child)
  (notRoot : child ≠ (overlay k).root)

/-- What the parent of a node leaves behind when a claim of the node reaches it. -/
def claimed (k : Nat) (s : Traffic α) (child : HierarchyAddress) (missing : Finset α) :
    IndexEntry.Claimed α :=
  (s.index child.getParent).acquireOwnershipFor (IndexService.create (2 ^ k) child.getParent) child
    missing

/-- A delivered claim sends one claim for what is still missing. -/
theorem claims_handle (s : Traffic α) (child : HierarchyAddress) (missing : Finset α) (x : α)
    {n : HierarchyAddress} (notRoot : n ≠ (overlay k).root) :
    (handle (2 ^ k) s.index (.acquireOwnershipFor child.getParent child missing)).2.countP
        (Message.claims x n) =
      if n = child.getParent ∧ x ∈ (claimed k s child missing).missing then 1 else 0 := by
  unfold handle
  rw [List.countP_append, countP_send, countP_send]
  simp only [Message.claims, and_false, Bool.false_eq_true, if_false, Nat.add_zero,
    decide_eq_true_eq]
  congr 1
  apply propext
  constructor
  · intro h
    exact ⟨h.2.1.symm, h.2.2⟩
  · intro h
    refine ⟨fun skip => ?_, h.1.symm, h.2⟩
    rcases skip with none | isRoot
    · exact Finset.ne_empty_of_mem h.2 none
    · apply notRoot
      rw [h.1]
      exact IndexService.isRoot_create.mp isRoot

include member notRoot in
/-- A delivered claim sends one withdrawal for what the other child has on record. -/
theorem withdrawals_handle (s : Traffic α) (missing : Finset α) (x : α) (n : HierarchyAddress) :
    (handle (2 ^ k) s.index (.acquireOwnershipFor child.getParent child missing)).2.countP
        (Message.withdraws x n) =
      if n = (overlay k).child child.getSide.other child.getParent ∧
        x ∈ (claimed k s child missing).part then 1 else 0 := by
  have high : (overlay k).Mem child.getParent := (overlay k).parent_mem member notRoot
  have inner : (overlay k).layer child.getParent ≠ 0 :=
    (overlay k).layer_parent_ne_zero member notRoot
  have back : (overlay k).child child.getSide child.getParent = child :=
    (overlay k).child_side member notRoot
  have turn := State.newChild_eq child.getSide high inner
  rw [back] at turn
  unfold handle
  rw [List.countP_append, countP_send, countP_send]
  simp only [turn, Message.withdraws, and_false, Bool.false_eq_true, if_false, Nat.zero_add,
    decide_eq_true_eq]
  congr 1
  apply propext
  constructor
  · intro h
    exact ⟨h.2.1.symm, h.2.2⟩
  · intro h
    exact ⟨Finset.ne_empty_of_mem h.2, h.1.symm, h.2⟩

section

variable {s : Traffic α} {missing : Finset α} {before after : List (Message α)}
  (inFlight : s.inFlight = before ++ .acquireOwnershipFor child.getParent child missing :: after)

include inFlight

/-- The claims in flight after a claim has been delivered. -/
theorem claims_delivered_claim (x : α) {n : HierarchyAddress} (inner : n ≠ (overlay k).root) :
    (s.delivered k (.acquireOwnershipFor child.getParent child missing) before after).claims x n +
        (if n = child ∧ x ∈ missing then 1 else 0) =
      s.claims x n +
        if n = child.getParent ∧ x ∈ (claimed k s child missing).missing then 1 else 0 := by
  rw [← claims_handle s child missing x inner, ← claims_delivered inFlight x n]
  simp only [Message.claims, decide_eq_true_eq, eq_comm (a := n)]

include member notRoot

/-- The withdrawals in flight after a claim has been delivered. -/
theorem withdrawals_delivered_claim (x : α) (n : HierarchyAddress) :
    (s.delivered k (.acquireOwnershipFor child.getParent child missing) before after).withdrawals x
        n =
      s.withdrawals x n +
        if n = (overlay k).child child.getSide.other child.getParent ∧
          x ∈ (claimed k s child missing).part then 1 else 0 := by
  rw [← withdrawals_handle member notRoot s missing x n, ← withdrawals_delivered inFlight x n]
  simp only [Message.withdraws, Bool.false_eq_true, if_false, Nat.add_zero]

/-- A claim of an element keeps its flow, and the node that it reaches manages the element. -/
theorem Flowing.deliver_claim_inside (flowing : s.Flowing k) {x : α} (inside : x ∈ missing) :
    (overlay k).Flow
        (Function.update (s.grid x) child.getParent ((claimed k s child missing).entry.cell x))
        ((s.delivered k (.acquireOwnershipFor child.getParent child missing) before after).claims x)
        ((s.delivered k (.acquireOwnershipFor child.getParent child missing) before
          after).withdrawals x) ∧
      ((claimed k s child missing).entry.cell x).managed = true := by
  have flow := flowing.flow x
  have high : (overlay k).Mem child.getParent := (overlay k).parent_mem member notRoot
  have inner : (overlay k).layer child.getParent ≠ 0 :=
    (overlay k).layer_parent_ne_zero member notRoot
  have back : (overlay k).child child.getSide child.getParent = child :=
    (overlay k).child_side member notRoot
  have place := State.beq_right_eq child.getSide high inner
  rw [back] at place
  have sent : s.claims x ((overlay k).child child.getSide child.getParent) ≠ 0 := by
    rw [back]
    exact claims_ne_zero inFlight (by simp [Message.claims, inside])
  have claims (n : HierarchyAddress) (inner : n ≠ (overlay k).root) :=
    claims_delivered_claim inFlight x inner
  have withdrawals := withdrawals_delivered_claim member notRoot inFlight x
  unfold claimed at claims withdrawals ⊢
  cases taken : (s.grid x child.getParent).on child.getSide.other with
  | true =>
    obtain ⟨cell, spared, collected⟩ :=
      IndexEntry.cell_acquireOwnershipFor_of_taken inside place taken
    rw [cell]
    refine ⟨?_, Cell.managed_of_on (s := child.getSide) (by simp)⟩
    apply flow.claim_taken high inner sent taken
    · intro n notRoot
      have count := claims n notRoot
      rw [back]
      simpa [inside, spared] using count.symm
    · intro n
      rw [withdrawals n]
      simp [collected]
  | false =>
    obtain ⟨cell, remains, spared⟩ :=
      IndexEntry.cell_acquireOwnershipFor_of_free inside place taken
    have kept : (s.delivered k (.acquireOwnershipFor child.getParent child missing) before
        after).withdrawals x = s.withdrawals x := by
      funext n
      rw [withdrawals n, if_neg (fun h => spared h.2), Nat.add_zero]
    rw [cell, kept]
    refine ⟨?_, Cell.managed_of_on (s := child.getSide) (by simp)⟩
    apply flow.claim_free high inner sent taken
    intro n notRoot
    rw [back]
    simpa [inside, remains] using claims n notRoot

/-- A claim that reaches the parent keeps the flow, and keeps elements alive. -/
theorem Flowing.deliver_claim (flowing : s.Flowing k) (x : α) :
    let s' := s.delivered k (.acquireOwnershipFor child.getParent child missing) before after
    (overlay k).Flow (s'.grid x) (s'.claims x) (s'.withdrawals x) ∧
      ((overlay k).Alive (s.grid x) → (overlay k).Alive (s'.grid x)) := by
  intro s'
  have high : (overlay k).Mem child.getParent := (overlay k).parent_mem member notRoot
  have grid : s'.grid x = Function.update (s.grid x) child.getParent
      ((claimed k s child missing).entry.cell x) := grid_update x s child.getParent _ _
  rw [grid]
  by_cases inside : x ∈ missing
  · obtain ⟨flow, managed⟩ := flowing.deliver_claim_inside member notRoot inFlight inside
    exact ⟨flow, fun _ => LayeredTree.Flow.alive_update high managed⟩
  · obtain ⟨cell, spared, spared'⟩ := IndexEntry.cell_acquireOwnershipFor_of_notMem
      (IndexService.create (2 ^ k) child.getParent) child (s.index child.getParent) inside
    have kept : s'.withdrawals x = s.withdrawals x := by
      funext n
      rw [withdrawals_delivered_claim member notRoot inFlight x n, claimed,
        if_neg (fun h => spared' h.2), Nat.add_zero]
    have same : Function.update (s.grid x) child.getParent
        ((claimed k s child missing).entry.cell x) = s.grid x := by
      rw [claimed, cell]
      exact Function.update_eq_self child.getParent (s.grid x)
    rw [same, kept]
    refine ⟨(flowing.flow x).of_claims fun n notRoot => ?_, id⟩
    have count := claims_delivered_claim inFlight x notRoot
    rw [if_neg (fun h => inside h.2), claimed, if_neg (fun h => spared h.2)] at count
    exact count

end

end Claiming

section Withdrawing

variable {addr : HierarchyAddress}

/-- A withdrawal that is delivered at a leaf. -/
theorem handle_leaf (index : HierarchyAddress → IndexEntry α) (missing : Finset α)
    (low : (overlay k).layer addr = 0) :
    handle (2 ^ k) index (.collectChildOwnerships addr missing) =
      (Function.update index addr ((index addr).collectAtLeaf missing), []) :=
  if_pos (IndexService.isLeaf_iff.mpr low)

/-- A withdrawal that is delivered at an inner node. -/
theorem handle_inner (index : HierarchyAddress → IndexEntry α) (missing : Finset α)
    (member : (overlay k).Mem addr) (inner : (overlay k).layer addr ≠ 0) :
    handle (2 ^ k) index (.collectChildOwnerships addr missing) =
      let collected := (index addr).collectChildOwnerships missing
      (Function.update index addr collected.entry,
        (if collected.right = ∅ then []
          else [.collectChildOwnerships ((overlay k).child .right addr) collected.right]) ++
        if collected.left = ∅ then []
          else [.collectChildOwnerships ((overlay k).child .left addr) collected.left]) := by
  have virtual : ¬ addr.isLeaf = true := fun leaf =>
    inner (IndexService.isLeaf_iff.mp leaf)
  simp only [handle, if_neg virtual, IndexService.right_create member inner,
    IndexService.left_create inner]

/-- A delivered withdrawal sends no claim. -/
theorem claims_handle_collect (index : HierarchyAddress → IndexEntry α) (addr : HierarchyAddress)
    (missing : Finset α) (x : α) (n : HierarchyAddress) :
    (handle (2 ^ k) index (.collectChildOwnerships addr missing)).2.countP
      (Message.claims x n) = 0 := by
  simp only [handle]
  split
  · rfl
  · rw [List.countP_append, countP_send, countP_send]
    simp [Message.claims]

/-- A withdrawal that is delivered at an inner node is passed on to the sides that have the
element on record. -/
theorem withdrawals_handle_inner (index : HierarchyAddress → IndexEntry α) (missing : Finset α)
    (member : (overlay k).Mem addr) (inner : (overlay k).layer addr ≠ 0) (x : α)
    (n : HierarchyAddress) :
    (handle (2 ^ k) index (.collectChildOwnerships addr missing)).2.countP
        (Message.withdraws x n) =
      (if n = (overlay k).child .right addr ∧
          x ∈ ((index addr).collectChildOwnerships missing).right then 1 else 0) +
        if n = (overlay k).child .left addr ∧
          x ∈ ((index addr).collectChildOwnerships missing).left then 1 else 0 := by
  have send (child : HierarchyAddress) (region : Finset α) :
      (¬ region = ∅ ∧ child = n ∧ x ∈ region) = (n = child ∧ x ∈ region) := by
    apply propext
    constructor
    · intro h
      exact ⟨h.2.1.symm, h.2.2⟩
    · intro h
      exact ⟨Finset.ne_empty_of_mem h.2, h.1.symm, h.2⟩
  rw [handle_inner index missing member inner]
  simp only [List.countP_append, countP_send, Message.withdraws, decide_eq_true_eq, send]

section

variable {s : Traffic α} {missing : Finset α} {before after : List (Message α)}
  (inFlight : s.inFlight = before ++ .collectChildOwnerships addr missing :: after)

include inFlight

/-- The claims in flight after a withdrawal has been delivered. -/
theorem claims_delivered_withdrawal (x : α) :
    (s.delivered k (.collectChildOwnerships addr missing) before after).claims x =
      s.claims x := by
  funext n
  have count := @claims_delivered _ _ k _ _ _ _ inFlight x n
  rw [claims_handle_collect] at count
  exact count

/-- The withdrawals in flight after a withdrawal has been delivered. -/
theorem withdrawals_delivered_withdrawal (x : α) (n : HierarchyAddress) :
    (s.delivered k (.collectChildOwnerships addr missing) before after).withdrawals x n +
        (if n = addr ∧ x ∈ missing then 1 else 0) =
      s.withdrawals x n +
        (handle (2 ^ k) s.index (.collectChildOwnerships addr missing)).2.countP
          (Message.withdraws x n) := by
  rw [← withdrawals_delivered inFlight x n]
  simp only [Message.withdraws, decide_eq_true_eq, eq_comm (a := n)]

/-- A withdrawal at a leaf keeps the flow, and elements alive. -/
theorem Flowing.deliver_withdrawal_leaf (flowing : s.Flowing k) (member : (overlay k).Mem addr)
    (notRoot : addr ≠ (overlay k).root) (low : (overlay k).layer addr = 0) (x : α) :
    let s' := s.delivered k (.collectChildOwnerships addr missing) before after
    (overlay k).Flow (s'.grid x) (s.claims x) (s'.withdrawals x) ∧
      ((overlay k).Alive (s.grid x) → (overlay k).Alive (s'.grid x)) := by
  intro s'
  have flow := flowing.flow x
  have grid : s'.grid x = Function.update (s.grid x) addr
      (((s.index addr).collectAtLeaf missing).cell x) := by
    show Traffic.grid x ⟨(handle (2 ^ k) s.index _).1, _⟩ = _
    rw [handle_leaf s.index missing low, grid_update]
  have withdrawals (n : HierarchyAddress) :=
    @withdrawals_delivered_withdrawal _ _ k _ _ _ _ _ inFlight x n
  rw [handle_leaf s.index missing low] at withdrawals
  rw [grid, IndexEntry.cell_collectAtLeaf]
  by_cases inside : x ∈ missing
  · have sent : s.withdrawals x addr ≠ 0 :=
      withdrawals_ne_zero inFlight (by simp [Message.withdraws, inside])
    rw [decide_eq_true inside, Bool.not_true, Bool.and_false]
    refine ⟨?_, fun _ => flow.alive_of_withdrawal member sent _⟩
    apply flow.withdraw_leaf member low notRoot sent
    intro n
    simpa [inside] using (withdrawals n).symm
  · have kept : s'.withdrawals x = s.withdrawals x := by
      funext n
      simpa [inside] using withdrawals n
    rw [decide_eq_false inside, Bool.not_false, Bool.and_true, kept]
    show (overlay k).Flow (Function.update (s.grid x) addr (s.grid x addr)) _ _ ∧
      (_ → (overlay k).Alive (Function.update (s.grid x) addr (s.grid x addr)))
    rw [Function.update_eq_self]
    exact ⟨flow, id⟩

/-- A withdrawal at an inner node keeps the flow, and elements alive. -/
theorem Flowing.deliver_withdrawal_inner (flowing : s.Flowing k) (member : (overlay k).Mem addr)
    (notRoot : addr ≠ (overlay k).root) (inner : (overlay k).layer addr ≠ 0) (x : α) :
    let s' := s.delivered k (.collectChildOwnerships addr missing) before after
    (overlay k).Flow (s'.grid x) (s.claims x) (s'.withdrawals x) ∧
      ((overlay k).Alive (s.grid x) → (overlay k).Alive (s'.grid x)) := by
  intro s'
  have flow := flowing.flow x
  have grid : s'.grid x = Function.update (s.grid x) addr
      (((s.index addr).collectChildOwnerships missing).entry.cell x) := by
    show Traffic.grid x ⟨(handle (2 ^ k) s.index _).1, _⟩ = _
    rw [handle_inner s.index missing member inner, grid_update]
  have withdrawals (n : HierarchyAddress) :=
    @withdrawals_delivered_withdrawal _ _ k _ _ _ _ _ inFlight x n
  simp only [withdrawals_handle_inner s.index missing member inner] at withdrawals
  rw [grid]
  by_cases inside : x ∈ missing
  · have sent : s.withdrawals x addr ≠ 0 :=
      withdrawals_ne_zero inFlight (by simp [Message.withdraws, inside])
    refine ⟨?_, fun _ => flow.alive_of_withdrawal member sent _⟩
    -- the record leads to one of the two children
    rcases flow.recorded_of_withdrawal member inner notRoot sent with left | right
    · obtain ⟨cell, collected, spared⟩ :=
        IndexEntry.cell_collectChildOwnerships_of_left inside left
      rw [cell]
      apply flow.withdraw_inner (s := .left) member inner notRoot sent left
      intro n
      simpa [inside, collected, spared] using withdrawals n
    · have free : (s.grid x addr).left = false := flow.on_other (s := .right) member right
      obtain ⟨cell, spared, collected⟩ :=
        IndexEntry.cell_collectChildOwnerships_of_right inside free right
      rw [cell]
      apply flow.withdraw_inner (s := .right) member inner notRoot sent right
      intro n
      simpa [inside, collected, spared] using withdrawals n
  · obtain ⟨cell, spared, spared'⟩ :=
      IndexEntry.cell_collectChildOwnerships_of_notMem (s.index addr) inside
    have kept : s'.withdrawals x = s.withdrawals x := by
      funext n
      simpa [inside, spared, spared'] using withdrawals n
    rw [cell, kept]
    show (overlay k).Flow (Function.update (s.grid x) addr (s.grid x addr)) _ _ ∧
      (_ → (overlay k).Alive (Function.update (s.grid x) addr (s.grid x addr)))
    rw [Function.update_eq_self]
    exact ⟨flow, id⟩

/-- A withdrawal that reaches its node keeps the flow, and elements alive. -/
theorem Flowing.deliver_withdrawal (flowing : s.Flowing k) (member : (overlay k).Mem addr)
    (notRoot : addr ≠ (overlay k).root) (x : α) :
    let s' := s.delivered k (.collectChildOwnerships addr missing) before after
    (overlay k).Flow (s'.grid x) (s'.claims x) (s'.withdrawals x) ∧
      ((overlay k).Alive (s.grid x) → (overlay k).Alive (s'.grid x)) := by
  intro s'
  rw [show s'.claims x = s.claims x from claims_delivered_withdrawal inFlight x]
  by_cases low : (overlay k).layer addr = 0
  · exact flowing.deliver_withdrawal_leaf inFlight member notRoot low x
  · exact flowing.deliver_withdrawal_inner inFlight member notRoot low x

end

end Withdrawing

/-- What a delivered call sends goes along the edges of the overlay. -/
theorem addressed_handle {message : Message α} (addressed : message.Addressed k)
    (index : HierarchyAddress → IndexEntry α) :
    ∀ sent ∈ (handle (2 ^ k) index message).2, sent.Addressed k := by
  have below (s : Side) {n : HierarchyAddress} (member : (overlay k).Mem n)
      (inner : (overlay k).layer n ≠ 0) (region : Finset α) :
      (Message.collectChildOwnerships ((overlay k).child s n) region).Addressed k :=
    ⟨(overlay k).child_mem s member inner, (overlay k).child_ne_root s member inner⟩
  intro sent found
  cases message with
  | acquireOwnershipFor addr child missing =>
    obtain ⟨member, notRoot, up⟩ := addressed
    subst up
    have high : (overlay k).Mem child.getParent := (overlay k).parent_mem member notRoot
    have inner : (overlay k).layer child.getParent ≠ 0 :=
      (overlay k).layer_parent_ne_zero member notRoot
    have turn := State.newChild_eq child.getSide high inner
    rw [show (overlay k).child child.getSide child.getParent = child from
      (overlay k).child_side member notRoot] at turn
    simp only [handle, turn, List.mem_append, mem_send] at found
    rcases found with ⟨goesOn, rfl⟩ | ⟨-, rfl⟩
    · refine ⟨high, fun isRoot => ?_, rfl⟩
      apply goesOn
      exact Or.inr (IndexService.isRoot_create.mpr isRoot)
    · exact below child.getSide.other high inner _
  | collectChildOwnerships addr missing =>
    have member : (overlay k).Mem addr := addressed.1
    by_cases low : (overlay k).layer addr = 0
    · rw [handle_leaf index missing low] at found
      exact absurd found List.not_mem_nil
    · rw [handle_inner index missing member low] at found
      simp only [List.mem_append, mem_send] at found
      rcases found with ⟨-, rfl⟩ | ⟨-, rfl⟩
      · exact below .right member low _
      · exact below .left member low _

end Traffic

open Traffic

/-! ## Runs -/

/-- A step keeps the flow, keeps elements alive, and brings the acquired ones to life. -/
theorem TrafficStep.keeps {s s' : Traffic α} {action : TrafficAction α} (flowing : s.Flowing k)
    (step : TrafficStep k s action s') :
    s'.Flowing k ∧ (∀ x, (overlay k).Alive (s.grid x) → (overlay k).Alive (s'.grid x)) ∧
      ∀ leaf missing, action = .acquire leaf missing →
        ∀ x ∈ missing, (overlay k).Alive (s'.grid x) := by
  cases step with
  | @acquire leaf missing member low apart =>
    have grid (x : α) : (s.acquireOwnership (2 ^ k) leaf missing).grid x =
        Function.update (s.grid x) leaf (((s.index leaf).acquireOwnership missing).cell x) :=
      grid_update x s leaf _ _
    refine ⟨flowing.acquire member low apart, fun x alive => ?_,
      fun leaf' missing' same x inside => ?_⟩
    · obtain ⟨n, node, managed⟩ := alive
      refine ⟨n, node, ?_⟩
      rw [grid]
      by_cases here : n = leaf
      · rw [here, Function.update_self, IndexEntry.cell_acquireOwnership]
        rw [here, Traffic.grid] at managed
        simp only [Cell.managed, Bool.or_eq_true] at managed ⊢
        tauto
      · rwa [Function.update_of_ne here]
    · cases same
      rw [grid]
      apply LayeredTree.Flow.alive_update member
      rw [IndexEntry.cell_acquireOwnership]
      simp [Cell.managed, inside]
  | @deliver message before after inFlight =>
    obtain ⟨here, others⟩ := mem_delivered inFlight
    have addressed := flowing.addressed message here
    have flows (x : α) :
        let s' := s.delivered k message before after
        (overlay k).Flow (s'.grid x) (s'.claims x) (s'.withdrawals x) ∧
          ((overlay k).Alive (s.grid x) → (overlay k).Alive (s'.grid x)) := by
      cases message with
      | acquireOwnershipFor addr child missing =>
        obtain ⟨member, notRoot, up⟩ := addressed
        subst up
        exact flowing.deliver_claim member notRoot inFlight x
      | collectChildOwnerships addr missing =>
        exact flowing.deliver_withdrawal inFlight addressed.1 addressed.2 x
    refine ⟨⟨fun sent found => ?_, fun x => (flows x).1⟩, fun x => (flows x).2,
      fun leaf missing same => by cases same⟩
    rcases List.mem_append.mp found with earlier | new
    · exact flowing.addressed sent (others sent earlier)
    · exact addressed_handle addressed s.index sent new

/-- In every state of a run each element is accounted for on every edge, and an element that has
been acquired is managed by some node. -/
theorem flowing_run {history : List (Traffic α × TrafficAction α)} {s : Traffic α}
    (run : (traffic α k).Run history s) :
    s.Flowing k ∧ ∀ x, AcquiredIn history x → (overlay k).Alive (s.grid x) := by
  induction run with
  | start => exact ⟨flowing_initial, fun x acquired => by
      obtain ⟨_, _, _, found, _⟩ := acquired
      exact absurd found List.not_mem_nil⟩
  | @step history s s' action _ step ih =>
    obtain ⟨flowing, alive, arrives⟩ := step.keeps ih.1
    refine ⟨flowing, fun x acquired => ?_⟩
    obtain ⟨t, leaf, missing, found, inside⟩ := acquired
    rcases List.mem_cons.mp found with last | earlier
    · exact arrives leaf missing (Prod.mk.inj last).2.symm x inside
    · exact alive x (ih.2 x ⟨t, leaf, missing, earlier, inside⟩)

/-- Follow the records of an element downwards for a number of layers, always to the one side
whose record contains it. -/
def Traffic.follow (size : Nat) (s : Traffic α) (x : α) :
    Nat → HierarchyAddress → Option HierarchyAddress
  | 0, n => some n
  | l + 1, n =>
    let service := IndexService.create size n
    if x ∈ (s.index n).left ∧ x ∉ (s.index n).right then follow size s x l service.left
    else if x ∈ (s.index n).right ∧ x ∉ (s.index n).left then follow size s x l service.right
    else none

/-- Where no element is on record on both sides, following the records is following the trail. -/
theorem Traffic.follow_eq_trail {s : Traffic α} {x : α} (law : (overlay k).Routed (s.grid x))
    {l : Nat} {n : HierarchyAddress} (member : (overlay k).Mem n)
    (height : (overlay k).layer n = l) :
    s.follow (2 ^ k) x l n = (overlay k).trail (s.grid x) l n := by
  induction l generalizing n with
  | zero => rfl
  | succ l ih =>
    have inner : (overlay k).layer n ≠ 0 := by omega
    have down (side : Side) : s.follow (2 ^ k) x l ((overlay k).child side n) =
        (overlay k).trail (s.grid x) l ((overlay k).child side n) := by
      have below := (overlay k).layer_child side member inner
      apply ih ((overlay k).child_mem side member inner)
      omega
    have single := law.disjoint n member
    simp only [Traffic.grid, IndexEntry.left_cell, IndexEntry.right_cell, decide_eq_true_eq,
      decide_eq_false_iff_not] at single
    rw [Traffic.follow, LayeredTree.trail]
    simp only [IndexService.right_create member inner, IndexService.left_create inner, down,
      Traffic.grid, IndexEntry.left_cell, IndexEntry.right_cell, decide_eq_true_eq]
    by_cases left : x ∈ (s.index n).left
    · rw [if_pos ⟨left, single left⟩, if_pos left]
    · rw [if_neg (fun h => left h.1), if_neg left]
      simp only [left, not_false_eq_true, and_true]

/-- Whenever no message is in flight, an element that some node manages is in `full_` of exactly one
leaf, and the records lead from the root to that leaf. -/
theorem Traffic.Flowing.owned {s : Traffic α} (flowing : s.Flowing k) (quiet : s.inFlight = [])
    {x : α} (alive : (overlay k).Alive (s.grid x)) :
    ∃ leaf, (InNetwork (2 ^ k) leaf ∧ leaf.isLeaf = true ∧ x ∈ (s.index leaf).full) ∧
      (∀ other, InNetwork (2 ^ k) other → other.isLeaf = true → x ∈ (s.index other).full →
        other = leaf) ∧
      s.follow (2 ^ k) x (getRootOfNetworkSize (2 ^ k)).layer (getRootOfNetworkSize (2 ^ k)) =
        some leaf := by
  have flow := flowing.flow x
  have law : (overlay k).Routed (s.grid x) := by
    apply flow.routed
    intro n _ _
    unfold Traffic.claims Traffic.withdrawals
    rw [quiet]
    exact ⟨rfl, rfl⟩
  have managed := law.managed_root alive
  obtain ⟨leaf, trail, member, low, held⟩ :=
    law.exists_trail flow.virtual (overlay k).root_mem rfl managed
  have full {n : HierarchyAddress} : (s.grid x n).held = true ↔ x ∈ (s.index n).full := by
    unfold Traffic.grid
    rw [IndexEntry.held_cell, decide_eq_true_eq]
  refine ⟨leaf, ⟨member, IndexService.isLeaf_iff.mpr low, full.mp held⟩,
    fun other node leafy inside => ?_, ?_⟩
  · have flat : (overlay k).layer other = 0 := IndexService.isLeaf_iff.mp leafy
    exact law.held_unique node flat (full.mpr inside) member low held
  · rw [← trail]
    exact Traffic.follow_eq_trail law (overlay k).root_mem rfl

/-- Whenever no message is in flight, every element that was acquired is in `full_` of exactly one
leaf, and the records lead from the root to that leaf. -/
theorem owned_when_quiet {history : List (Traffic α × TrafficAction α)} {s : Traffic α}
    (run : (traffic α k).Run history s) (quiet : s.inFlight = []) {x : α}
    (acquired : AcquiredIn history x) :
    ∃ leaf, (InNetwork (2 ^ k) leaf ∧ leaf.isLeaf = true ∧ x ∈ (s.index leaf).full) ∧
      (∀ other, InNetwork (2 ^ k) other → other.isLeaf = true → x ∈ (s.index other).full →
        other = leaf) ∧
      s.follow (2 ^ k) x (getRootOfNetworkSize (2 ^ k)).layer (getRootOfNetworkSize (2 ^ k)) =
        some leaf := by
  obtain ⟨flowing, alive⟩ := flowing_run run
  exact flowing.owned quiet (alive x acquired)

/-- The leaves of two localities acquire an element at the same time, and the claim of the second
leaf arrives first. -/
theorem owned_when_quiet_two :
    let first : Traffic Nat := Traffic.initial.acquireOwnership 2 ⟨0, 0⟩ {0}
    let both := first.acquireOwnership 2 ⟨1, 0⟩ {0}
    let one : Traffic Nat := ⟨(handle 2 both.index (.acquireOwnershipFor ⟨0, 1⟩ ⟨1, 0⟩ {0})).1,
      [.acquireOwnershipFor ⟨0, 1⟩ ⟨0, 0⟩ {0}]⟩
    let other : Traffic Nat := ⟨(handle 2 one.index (.acquireOwnershipFor ⟨0, 1⟩ ⟨0, 0⟩ {0})).1,
      [.collectChildOwnerships ⟨1, 0⟩ {0}]⟩
    let last : Traffic Nat := ⟨(handle 2 other.index (.collectChildOwnerships ⟨1, 0⟩ {0})).1, []⟩
    ∃ leaf, (InNetwork 2 leaf ∧ leaf.isLeaf = true ∧ 0 ∈ (last.index leaf).full) ∧
      (∀ other, InNetwork 2 other → other.isLeaf = true → 0 ∈ (last.index other).full →
        other = leaf) ∧ last.follow 2 0 1 ⟨0, 1⟩ = some leaf := by
  intro first both one other last
  have run : (traffic Nat 1).Run [(other, .deliver (.collectChildOwnerships ⟨1, 0⟩ {0})),
      (one, .deliver (.acquireOwnershipFor ⟨0, 1⟩ ⟨0, 0⟩ {0})),
      (both, .deliver (.acquireOwnershipFor ⟨0, 1⟩ ⟨1, 0⟩ {0})),
      (first, .acquire ⟨1, 0⟩ {0}), (.initial, .acquire ⟨0, 0⟩ {0})] last := by
    have start : TrafficStep 1 .initial (.acquire ⟨0, 0⟩ {0}) first := by
      apply TrafficStep.acquire <;> decide
    have overlap : TrafficStep 1 first (.acquire ⟨1, 0⟩ {0}) both := by
      apply TrafficStep.acquire <;> decide
    have later : TrafficStep 1 both (.deliver (.acquireOwnershipFor ⟨0, 1⟩ ⟨1, 0⟩ {0})) one :=
      @TrafficStep.deliver Nat _ 1 both _ [.acquireOwnershipFor ⟨0, 1⟩ ⟨0, 0⟩ {0}] [] rfl
    have earlier : TrafficStep 1 one (.deliver (.acquireOwnershipFor ⟨0, 1⟩ ⟨0, 0⟩ {0})) other :=
      @TrafficStep.deliver Nat _ 1 one _ [] [] rfl
    have collect : TrafficStep 1 other (.deliver (.collectChildOwnerships ⟨1, 0⟩ {0})) last :=
      @TrafficStep.deliver Nat _ 1 other _ [] [] rfl
    exact ((((System.Run.start.step start).step overlap).step later).step earlier).step collect
  exact owned_when_quiet run rfl ⟨_, ⟨0, 0⟩, {0}, by simp; rfl, by simp⟩

end AllScale
