import Mathlib.Data.Finset.Basic
import AllScale.DataItemManager.Gaps
import AllScale.DataItemManager.Traffic

/-!
# Acquires that run concurrently

An acquire enters two locked sections of the index entry at its leaf. In the first it computes the
part of its region that the leaf is missing; the second is the one of `acquire_ownership`, which
asserts that the leaf has nothing of that part. Between the two the entry is not locked: other
acquires can compute and enter, and calls are delivered. The network can have any size.
-/

namespace AllScale

open TokenTree HierarchyAddress Transition

variable {α : Type} [DecidableEq α] {size : Nat}

/-- Acquires of one data item that are under way. -/
structure Acquires (α : Type) where
  /-- The index entries and the calls in flight. -/
  traffic : Traffic α
  /-- The acquires between their two locked sections: a leaf and the region `missing`. -/
  computed : List (HierarchyAddress × Finset α)
  /-- The elements that acquires have found at their leaf or have acquired. -/
  acquired : Finset α

/-- One of the two locked sections of an acquire, or the delivery of a call. -/
inductive AcquireAction (α : Type) where
  /-- The missing part of a region is computed. -/
  | compute (leaf : HierarchyAddress) (region : Finset α)
  /-- `acquire_ownership` is entered for a missing region. -/
  | enter (leaf : HierarchyAddress) (missing : Finset α)
  /-- A call reaches its node. -/
  | deliver (message : Message α)

namespace Acquires

/-- No acquire has started yet. -/
def initial : Acquires α := ⟨.initial, [], ∅⟩

/-- The first locked section of `acquire`, which returns when nothing is missing. -/
def compute (s : Acquires α) (leaf : HierarchyAddress) (region : Finset α) : Acquires α :=
  let entry := s.traffic.index leaf
  let missing := region \ entry.full
  { s with
    computed := if missing = ∅ then s.computed else s.computed ++ [(leaf, missing)]
    acquired := s.acquired ∪ region ∩ entry.full }

/-- The second locked section of an acquire. -/
def enter (size : Nat) (s : Acquires α) (leaf : HierarchyAddress) (missing : Finset α) :
    Acquires α where
  traffic := s.traffic.acquireOwnership size leaf missing
  computed := s.computed.erase (leaf, missing)
  acquired := s.acquired ∪ missing

end Acquires

/-- The steps in a network: acquires are called at any leaf for any region. -/
inductive AcquireStep (size : Nat) : Acquires α → AcquireAction α → Acquires α → Prop
  | compute {s : Acquires α} {leaf : HierarchyAddress} {region : Finset α} :
      InNetwork size leaf → leaf.isLeaf = true →
      AcquireStep size s (.compute leaf region) (s.compute leaf region)
  | enter {s : Acquires α} {leaf : HierarchyAddress} {missing : Finset α} :
      (leaf, missing) ∈ s.computed →
      AcquireStep size s (.enter leaf missing) (s.enter size leaf missing)
  | deliver {s : Acquires α} {message : Message α} {before after : List (Message α)} :
      s.traffic.inFlight = before ++ message :: after →
      AcquireStep size s (.deliver message)
        { s with
          traffic := ⟨(Traffic.handle size s.traffic.index message).1,
            before ++ after ++ (Traffic.handle size s.traffic.index message).2⟩ }

/-- Acquires of one data item in a network. -/
def acquiring (α : Type) [DecidableEq α] (size : Nat) : System (Acquires α) (AcquireAction α) where
  start := .initial
  step := AcquireStep size

namespace Acquires

/-- Whichever acquire enters next, the assertion of `acquire_ownership` holds. -/
def Guarded (s : Acquires α) : Prop :=
  ∀ waiting ∈ s.computed, Disjoint (s.traffic.index waiting.1).full waiting.2

/-- When an acquire enters, what it is missing is not missing to another acquire of its leaf that
has not entered yet. -/
def Alone (s : Acquires α) : AcquireAction α → Prop
  | .compute _ _ => True
  | .enter leaf missing =>
    ∀ other, (leaf, other) ∈ s.computed.erase (leaf, missing) → Disjoint missing other
  | .deliver _ => True

/-- The leaf of an acquire is below nodes that have two children. -/
def Below (size : Nat) (_ : Acquires α) : AcquireAction α → Prop
  | .compute leaf _ => leaf.Closed size
  | .enter _ _ => True
  | .deliver _ => True

/-- No leaf asks for an element twice, and with no call in flight every acquired element has one
owner. -/
structure Settled (size : Nat) (s : Acquires α) : Prop where
  /-- At most one call in flight asks for an element for a leaf. -/
  once : ∀ leaf, InNetwork size leaf → leaf.isLeaf = true → ∀ x, s.traffic.claims x leaf ≤ 1
  /-- An acquired element is in `full_` of exactly one leaf. -/
  owned : s.traffic.inFlight = [] → ∀ x ∈ s.acquired,
    ∃ leaf, (InNetwork size leaf ∧ leaf.isLeaf = true ∧ x ∈ (s.traffic.index leaf).full) ∧
      ∀ other, InNetwork size other → other.isLeaf = true → x ∈ (s.traffic.index other).full →
        other = leaf

end Acquires

/-! ## The regions of leaves -/

/-- A claim goes to a virtual node. -/
def Message.Upward : Message α → Prop
  | .acquireOwnershipFor addr _ _ => addr.isLeaf = false
  | .collectChildOwnerships _ _ => True

namespace Traffic

/-- The calls that a delivery makes: a claim that goes on from a node below the root, and
withdrawals. -/
theorem mem_handle {index : HierarchyAddress → IndexEntry α} {message sent : Message α}
    (found : sent ∈ (handle size index message).2) :
    (∃ addr child missing region, message = .acquireOwnershipFor addr child missing ∧
        addr ≠ (overlay (height size)).root ∧
        sent = .acquireOwnershipFor addr.getParent addr region) ∨
      ∃ addr region, sent = .collectChildOwnerships addr region := by
  cases message with
  | acquireOwnershipFor addr child missing =>
    simp only [handle, List.mem_append, mem_send] at found
    rcases found with ⟨goesOn, claim⟩ | ⟨-, withdrawal⟩
    · refine Or.inl ⟨addr, child, missing, _, rfl, fun isRoot => ?_, claim⟩
      exact goesOn (Or.inr (IndexService.isRoot_create_overlay.mpr isRoot))
    · exact Or.inr ⟨_, _, withdrawal⟩
  | collectChildOwnerships addr missing =>
    by_cases low : addr.isLeaf = true
    · simp only [handle, if_pos low] at found
      exact absurd found List.not_mem_nil
    · simp only [handle, if_neg low, List.mem_append, mem_send] at found
      rcases found with ⟨-, right⟩ | ⟨-, left⟩
      · exact Or.inr ⟨_, _, right⟩
      · exact Or.inr ⟨_, _, left⟩

/-- What a withdrawal leaves behind at its node. -/
theorem index_withdrawal (index : HierarchyAddress → IndexEntry α) (addr : HierarchyAddress)
    (missing : Finset α) :
    (handle size index (.collectChildOwnerships addr missing)).1 =
      Function.update index addr
        (if addr.isLeaf then (index addr).collectAtLeaf missing
          else ((index addr).collectChildOwnerships missing).entry) := by
  simp only [handle]
  split <;> rfl

/-- A delivery takes parts off the region of a leaf, and adds nothing. -/
theorem full_handle (index : HierarchyAddress → IndexEntry α) {message : Message α}
    (upward : message.Upward) {leaf : HierarchyAddress} (low : leaf.isLeaf = true) :
    ((handle size index message).1 leaf).full ⊆ (index leaf).full := by
  cases message with
  | acquireOwnershipFor addr child missing =>
    have different : leaf ≠ addr := by
      rintro rfl
      rw [show leaf.isLeaf = false from upward] at low
      cases low
    simp only [handle, Function.update_of_ne different]
    exact Finset.Subset.refl _
  | collectChildOwnerships addr missing =>
    rw [index_withdrawal]
    by_cases here : leaf = addr
    · subst here
      rw [Function.update_self, if_pos low]
      exact Finset.sdiff_subset
    · rw [Function.update_of_ne here]

/-- An acquire of ownership adds what is missing to the region of its leaf. -/
theorem full_acquireOwnership (s : Traffic α) (leaf addr : HierarchyAddress) (missing : Finset α) :
    ((s.acquireOwnership size leaf missing).index addr).full =
      if addr = leaf then (s.index addr).full ∪ missing else (s.index addr).full := by
  simp only [acquireOwnership]
  by_cases here : addr = leaf
  · rw [if_pos here, here, Function.update_self]
    rfl
  · rw [if_neg here, Function.update_of_ne here]

end Traffic

namespace Acquires

/-- What every step keeps: acquires wait at leaves, and claims go to virtual nodes. -/
structure Placed (s : Acquires α) : Prop where
  /-- The leaves of the acquires that have not entered yet. -/
  leaves : ∀ waiting ∈ s.computed, waiting.1.isLeaf = true
  /-- The calls in flight. -/
  upward : ∀ message ∈ s.traffic.inFlight, message.Upward

/-- The acquires that wait after another has computed what it is missing. -/
theorem mem_compute {s : Acquires α} {leaf : HierarchyAddress} {region : Finset α}
    {waiting : HierarchyAddress × Finset α} (found : waiting ∈ (s.compute leaf region).computed) :
    waiting ∈ s.computed ∨ waiting = (leaf, region \ (s.traffic.index leaf).full) := by
  simp only [compute] at found
  split at found
  · exact Or.inl found
  · rcases List.mem_append.mp found with before | last
    · exact Or.inl before
    · exact Or.inr (List.mem_singleton.mp last)

/-- A step keeps the acquires at leaves and the claims at virtual nodes. -/
theorem Placed.step {s s' : Acquires α} {action : AcquireAction α} (placed : s.Placed)
    (step : AcquireStep size s action s') : s'.Placed := by
  cases step with
  | @compute leaf region member low =>
    refine ⟨fun waiting found => ?_, placed.upward⟩
    rcases mem_compute found with before | rfl
    · exact placed.leaves waiting before
    · exact low
  | @enter leaf missing found =>
    refine ⟨fun waiting left => placed.leaves waiting (List.mem_of_mem_erase left),
      fun message sent => ?_⟩
    rcases List.mem_append.mp sent with before | new
    · exact placed.upward message before
    · obtain ⟨-, rfl⟩ := mem_send.mp new
      rfl
  | @deliver message before after inFlight =>
    obtain ⟨-, earlier⟩ := mem_delivered inFlight
    refine ⟨placed.leaves, fun sent found => ?_⟩
    rcases List.mem_append.mp found with old | new
    · exact placed.upward sent (earlier sent old)
    · rcases Traffic.mem_handle new with ⟨addr, child, missing, region, -, -, rfl⟩ |
        ⟨addr, region, rfl⟩
      · rfl
      · trivial

/-- A step keeps the assertion exactly if an acquire that enters is alone. -/
theorem guarded_step {s s' : Acquires α} {action : AcquireAction α} (placed : s.Placed)
    (guarded : s.Guarded) (step : AcquireStep size s action s') :
    s'.Guarded ↔ s.Alone action := by
  cases step with
  | @compute leaf region member low =>
    refine ⟨fun _ => trivial, fun _ waiting found => ?_⟩
    rcases mem_compute found with before | rfl
    · exact guarded waiting before
    · exact Finset.disjoint_sdiff
  | @enter leaf missing found =>
    constructor
    · intro after other left
      have apart := after (leaf, other) left
      simp only [enter, Traffic.full_acquireOwnership, if_true] at apart
      exact Finset.disjoint_of_subset_left Finset.subset_union_right apart
    · rintro alone ⟨addr, other⟩ left
      have before := guarded (addr, other) (List.mem_of_mem_erase left)
      simp only [enter, Traffic.full_acquireOwnership]
      by_cases here : addr = leaf
      · subst here
        rw [if_pos rfl, Finset.disjoint_union_left]
        exact ⟨before, alone other left⟩
      · rw [if_neg here]
        exact before
  | @deliver message before after inFlight =>
    refine ⟨fun _ => trivial, fun _ waiting found => ?_⟩
    have upward := placed.upward message (mem_delivered inFlight).1
    exact Finset.disjoint_of_subset_left
      (Traffic.full_handle _ upward (placed.leaves waiting found)) (guarded waiting found)

end Acquires

/-! ## Below nodes with two children -/

/-- A claim goes to a node below nodes with two children. -/
def Message.Closed (size : Nat) : Message α → Prop
  | .acquireOwnershipFor addr _ _ => addr.Closed size
  | .collectChildOwnerships _ _ => True

namespace Traffic

/-- Nodes that miss a child have nothing on record. -/
def Vacant (size : Nat) (s : Traffic α) : Prop :=
  ∀ addr, (overlay (height size)).Mem addr → ¬ addr.Complete size →
    ∀ side, (s.index addr).record side = ∅

section Delivery

variable {s : Traffic α} {message : Message α} (addressed : message.Addressed (height size))
  (closed : message.Closed size)

include addressed closed

/-- Where the nodes that miss a child are vacant and claims do not come across them, a call does
what it does in the overlay of the next power of two. -/
theorem handle_eq (vacant : s.Vacant size) :
    handle size s.index message = handle (2 ^ height size) s.index message := by
  cases message with
  | acquireOwnershipFor addr child missing =>
    obtain ⟨member, notRoot, rfl⟩ := addressed
    have high : (overlay (height size)).Mem child.getParent :=
      (overlay (height size)).parent_mem member notRoot
    simp only [handle, IndexService.create_eq (closed _ (.refl _)) high]
  | collectChildOwnerships addr missing =>
    by_cases complete : addr.Complete size
    · simp only [handle, IndexService.create_eq complete addressed.1]
    · have spared := State.collect_of_vacant (vacant addr addressed.1 complete) missing
      simp only [handle, spared, if_true]

omit addressed in
/-- Nodes that miss a child stay vacant when a call is delivered. -/
theorem vacant_handle (vacant : s.Vacant size) (inFlight : List (Message α)) :
    Vacant size ⟨(handle size s.index message).1, inFlight⟩ := by
  intro addr member gap side
  have before := vacant addr member gap side
  show ((handle size s.index message).1 addr).record side = ∅
  cases message with
  | acquireOwnershipFor here child missing =>
    have different : addr ≠ here := by
      rintro rfl
      exact gap (closed addr (.refl addr))
    simp only [handle, Function.update_of_ne different]
    exact before
  | collectChildOwnerships here missing =>
    rw [index_withdrawal]
    by_cases same : addr = here
    · subst same
      rw [Function.update_self]
      split
      · cases side <;> exact before
      · apply Finset.subset_empty.mp
        rw [← before]
        exact IndexEntry.record_collectChildOwnerships _ missing side
    · rw [Function.update_of_ne same]
      exact before

end Delivery

end Traffic

namespace Acquires

/-- What holds between any two steps of acquires below nodes with two children. -/
structure Gapless (size : Nat) (s : Acquires α) : Prop where
  /-- On every edge each element is accounted for. -/
  flowing : s.traffic.Flowing (height size)
  /-- The nodes that miss a child have nothing on record. -/
  vacant : s.traffic.Vacant size
  /-- Claims do not come across them. -/
  closed : ∀ message ∈ s.traffic.inFlight, message.Closed size
  /-- The acquires that have not entered yet are called at leaves of the network. -/
  waiting : ∀ waiting ∈ s.computed, InNetwork size waiting.1 ∧ waiting.1.Closed size
  /-- Only leaves of the network have elements. -/
  inside : ∀ leaf, leaf.isLeaf = true → ∀ x ∈ (s.traffic.index leaf).full, InNetwork size leaf
  /-- Acquired elements are managed by some node. -/
  alive : ∀ x ∈ s.acquired, (overlay (height size)).Alive (s.traffic.grid x)

/-- At the start nothing is acquired. -/
theorem gapless_initial : (initial : Acquires α).Gapless size where
  flowing := Traffic.flowing_initial
  vacant := fun _ _ _ side => by cases side <;> rfl
  closed := fun _ found => absurd found List.not_mem_nil
  waiting := fun _ found => absurd found List.not_mem_nil
  inside := fun _ _ x found => absurd found (Finset.notMem_empty x)
  alive := fun x found => absurd found (Finset.notMem_empty x)

/-- The first locked section of an acquire below nodes with two children keeps the invariant. -/
theorem Gapless.compute {s : Acquires α} (gapless : s.Gapless size) {leaf : HierarchyAddress}
    {region : Finset α} (member : InNetwork size leaf) (closed : leaf.Closed size) :
    (s.compute leaf region).Gapless size := by
  refine ⟨gapless.flowing, gapless.vacant, gapless.closed, fun waiting found => ?_,
    gapless.inside, fun x acquired => ?_⟩
  · rcases mem_compute found with before | rfl
    · exact gapless.waiting waiting before
    · exact ⟨member, closed⟩
  · rcases Finset.mem_union.mp acquired with before | here
    · exact gapless.alive x before
    · refine ⟨leaf, (inNetwork_iff_mem.mp member).1, ?_⟩
      have held : x ∈ (s.traffic.index leaf).full := (Finset.mem_inter.mp here).2
      simp [Acquires.compute, Traffic.grid, Cell.managed, held]

/-- The second locked section of an acquire keeps the invariant. -/
theorem Gapless.enter {s : Acquires α} (gapless : s.Gapless size) {leaf : HierarchyAddress}
    {missing : Finset α} (found : (leaf, missing) ∈ s.computed) (low : leaf.isLeaf = true)
    (apart : Disjoint (s.traffic.index leaf).full missing) :
    (s.enter size leaf missing).Gapless size := by
  obtain ⟨member, closed⟩ := gapless.waiting _ found
  have node := (inNetwork_iff_mem.mp member).1
  have service := IndexService.create_eq (closed _ (.refl _)) node
  have same : s.traffic.acquireOwnership size leaf missing =
      s.traffic.acquireOwnership (2 ^ height size) leaf missing := by
    simp only [Traffic.acquireOwnership, service]
  have kept := TrafficStep.keeps gapless.flowing (.acquire node low apart)
  rw [← same] at kept
  obtain ⟨flowing, alive, arrives⟩ := kept
  refine ⟨flowing, fun addr node gap side => ?_, fun message sent => ?_,
    fun waiting left => gapless.waiting waiting (List.mem_of_mem_erase left),
    fun addr flat x inside => ?_, fun x acquired => ?_⟩
  · rw [← gapless.vacant addr node gap side]
    simp only [Acquires.enter, Traffic.acquireOwnership]
    by_cases here : addr = leaf
    · rw [here, Function.update_self]
      cases side <;> rfl
    · rw [Function.update_of_ne here]
  · rcases List.mem_append.mp sent with before | new
    · exact gapless.closed message before
    · obtain ⟨inner, rfl⟩ := mem_send.mp new
      apply HierarchyAddress.Closed.parent closed
      exact fun isRoot => inner (IndexService.isRoot_create_overlay.mpr isRoot)
  · simp only [Acquires.enter, Traffic.full_acquireOwnership] at inside
    split at inside
    · next here =>
      rw [here]
      exact member
    · exact gapless.inside addr flat x inside
  · rcases Finset.mem_union.mp acquired with before | new
    · exact alive x (gapless.alive x before)
    · exact arrives leaf missing rfl x new

/-- The delivery of a call keeps the invariant. -/
theorem Gapless.deliver {s : Acquires α} (gapless : s.Gapless size) {message : Message α}
    {before after : List (Message α)} (upward : message.Upward)
    (inFlight : s.traffic.inFlight = before ++ message :: after) :
    ({ s with
      traffic := ⟨(Traffic.handle size s.traffic.index message).1,
        before ++ after ++ (Traffic.handle size s.traffic.index message).2⟩ } :
      Acquires α).Gapless size := by
  obtain ⟨here, earlier⟩ := mem_delivered inFlight
  have addressed := gapless.flowing.addressed message here
  have closed := gapless.closed message here
  have same := Traffic.handle_eq addressed closed gapless.vacant
  have kept := TrafficStep.keeps gapless.flowing (.deliver inFlight)
  rw [← same] at kept
  obtain ⟨flowing, alive, -⟩ := kept
  refine ⟨flowing, Traffic.vacant_handle closed gapless.vacant _, fun sent found => ?_,
    gapless.waiting, fun leaf low x inside => ?_,
    fun x acquired => alive x (gapless.alive x acquired)⟩
  · rcases List.mem_append.mp found with old | new
    · exact gapless.closed sent (earlier sent old)
    · rcases Traffic.mem_handle new with ⟨addr, child, missing, region, rfl, notRoot, rfl⟩ |
        ⟨addr, region, rfl⟩
      · exact HierarchyAddress.Closed.parent closed notRoot
      · trivial
  · apply gapless.inside leaf low x
    exact Traffic.full_handle _ upward low inside

/-- A step keeps the invariant, where acquires are called below nodes with two children. -/
theorem Gapless.step {s s' : Acquires α} {action : AcquireAction α} (gapless : s.Gapless size)
    (placed : s.Placed) (guarded : s.Guarded) (below : s.Below size action)
    (step : AcquireStep size s action s') : s'.Gapless size := by
  cases step with
  | compute member _ => exact gapless.compute member below
  | enter found => exact gapless.enter found (placed.leaves _ found) (guarded _ found)
  | deliver inFlight =>
    have sent := (mem_delivered inFlight).1
    exact gapless.deliver (placed.upward _ sent) inFlight

/-- With the invariant no leaf asks for an element twice, and acquired elements have one owner. -/
theorem Gapless.settled {s : Acquires α} (gapless : s.Gapless size) : s.Settled size := by
  refine ⟨fun leaf member low x => ?_, fun quiet x acquired => ?_⟩
  · have node := (inNetwork_iff_mem.mp member).1
    by_cases isRoot : leaf = (overlay (height size)).root
    · have zero : s.traffic.claims x leaf = 0 := by
        apply List.countP_eq_zero.mpr
        intro message found claims
        cases message with
        | acquireOwnershipFor addr child missing =>
          have addressed := gapless.flowing.addressed _ found
          simp only [Message.claims, decide_eq_true_eq] at claims
          exact addressed.2.1 (claims.1.trans isRoot)
        | collectChildOwnerships addr missing => cases claims
      omega
    · have count := (gapless.flowing.flow x).edge leaf node isRoot
      have bound := Bool.toNat_le (s.traffic.grid x leaf).managed
      omega
  · obtain ⟨leaf, ⟨node, low, held⟩, unique, -⟩ :=
      gapless.flowing.owned quiet (gapless.alive x acquired)
    refine ⟨leaf, ⟨gapless.inside leaf low x held, low, held⟩, fun other member flat found => ?_⟩
    exact unique other (inNetwork_iff_mem.mp member).1 flat found

/-- In every run the assertion of `acquire_ownership` holds, whichever acquire enters next, exactly
if every acquire that enters is alone. Then, for acquires below nodes with two children, no leaf
asks for an element twice, and with no call in flight every acquired element has one owner. -/
theorem guarded_run_iff {history : List (Acquires α × AcquireAction α)} {s : Acquires α}
    (run : (acquiring α size).Run history s) :
    (System.Always Guarded history s ↔ System.Meets Alone history) ∧
      (System.Meets Alone history → System.Meets (Below size) history →
        System.Always (Settled size) history s) := by
  have placed : (initial : Acquires α).Placed :=
    ⟨fun _ found => absurd found List.not_mem_nil, fun _ found => absurd found List.not_mem_nil⟩
  have guarded : (initial : Acquires α).Guarded := fun _ found => absurd found List.not_mem_nil
  constructor
  · exact run.always_iff placed (fun before step => before.step step) guarded guarded_step
  · intro alone below
    have always := run.always
      (P := fun s : Acquires α => s.Placed ∧ s.Guarded ∧ s.Gapless size)
      (Q := fun s action => s.Alone action ∧ s.Below size action)
      ⟨placed, guarded, gapless_initial⟩ ?_
      fun taken found => ⟨alone taken found, below taken found⟩
    · exact always.imp fun _ holds => holds.2.2.settled
    · rintro s action s' ⟨placed, guarded, gapless⟩ ⟨alone, below⟩ step
      exact ⟨placed.step step, (guarded_step placed guarded step).mpr alone,
        gapless.step placed guarded below step⟩

/-- Two leaves compute what they are missing of a region, and then both enter. -/
theorem guarded_run_iff_two : ∃ (history : List (Acquires Nat × AcquireAction Nat))
    (s : Acquires Nat), (acquiring Nat 2).Run history s ∧ s.acquired = {0} ∧
      s.traffic.inFlight.length = 2 ∧
      (System.Always Guarded history s ↔ System.Meets Alone history) ∧
      (System.Meets Alone history → System.Meets (Below 2) history →
        System.Always (Settled 2) history s) := by
  let first : Acquires Nat := initial.compute ⟨0, 0⟩ {0}
  let both := first.compute ⟨1, 0⟩ {0}
  let one := both.enter 2 ⟨0, 0⟩ {0}
  let last := one.enter 2 ⟨1, 0⟩ {0}
  have run : (acquiring Nat 2).Run [(one, .enter ⟨1, 0⟩ {0}), (both, .enter ⟨0, 0⟩ {0}),
      (first, .compute ⟨1, 0⟩ {0}), (.initial, .compute ⟨0, 0⟩ {0})] last := by
    have start : AcquireStep 2 .initial (.compute ⟨0, 0⟩ {0}) first :=
      .compute (by decide) (by decide)
    have overlap : AcquireStep 2 first (.compute ⟨1, 0⟩ {0}) both :=
      .compute (by decide) (by decide)
    have enters : AcquireStep 2 both (.enter ⟨0, 0⟩ {0}) one := .enter (by decide)
    have follows : AcquireStep 2 one (.enter ⟨1, 0⟩ {0}) last := .enter (by decide)
    exact (((System.Run.start.step start).step overlap).step enters).step follows
  exact ⟨_, _, run, by decide, by decide, guarded_run_iff run⟩

/-- Two acquires of one leaf compute the same missing region before the first of them enters. The
assertion fails for the second, which asks the parent for the element again. -/
theorem not_guarded : ∃ (history : List (Acquires Nat × AcquireAction Nat)) (s s' : Acquires Nat),
    (acquiring Nat 2).Run history s ∧ System.Meets (Below 2) history ∧
      AcquireStep 2 s (.enter ⟨0, 0⟩ {0}) s' ∧
      ¬ Disjoint (s.traffic.index ⟨0, 0⟩).full {0} ∧ s'.traffic.claims 0 ⟨0, 0⟩ = 2 := by
  let first : Acquires Nat := initial.compute ⟨0, 0⟩ {0}
  let both := first.compute ⟨0, 0⟩ {0}
  let one := both.enter 2 ⟨0, 0⟩ {0}
  have run : (acquiring Nat 2).Run [(both, .enter ⟨0, 0⟩ {0}), (first, .compute ⟨0, 0⟩ {0}),
      (.initial, .compute ⟨0, 0⟩ {0})] one := by
    have start : AcquireStep 2 .initial (.compute ⟨0, 0⟩ {0}) first :=
      .compute (by decide) (by decide)
    have again : AcquireStep 2 first (.compute ⟨0, 0⟩ {0}) both := .compute (by decide) (by decide)
    have enters : AcquireStep 2 both (.enter ⟨0, 0⟩ {0}) one := .enter (by decide)
    exact ((System.Run.start.step start).step again).step enters
  have closed : HierarchyAddress.Closed 2 ⟨0, 0⟩ :=
    HierarchyAddress.closed_of_iterate (by decide) (by decide)
  refine ⟨_, one, _, run, ?_, .enter (by decide), by decide, by decide⟩
  intro taken found
  simp only [List.mem_cons, List.not_mem_nil, or_false] at found
  rcases found with rfl | rfl | rfl
  · trivial
  · exact closed
  · exact closed

end Acquires

end AllScale
