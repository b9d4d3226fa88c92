import AllScale.Network
import AllScale.DataItemManager.Scheduling

/-!
# Networks with gaps

In a network whose size is not a power of two some nodes have no right child, and their
`index_service` has the address of the left child in its place. Collecting only takes parts off the
records, and a claim adds to the records of the nodes above a leaf; so as long as no acquire comes
across a node that misses a child, nothing is on record there, and every acquire does what it does
in the overlay of the next power of two.
-/

namespace AllScale

open TokenTree HierarchyAddress Transition

variable {α V : Type} {size : Nat}

/-- A node has two children in a network of a size. -/
def HierarchyAddress.Complete (size : Nat) (addr : HierarchyAddress) : Prop :=
  addr.isLeaf = false → addr.getRightChild.rank < size

instance (size : Nat) (addr : HierarchyAddress) : Decidable (addr.Complete size) :=
  inferInstanceAs (Decidable (_ → _))

/-- All nodes above a node have two children. -/
def HierarchyAddress.Closed (size : Nat) (addr : HierarchyAddress) : Prop :=
  ∀ above, (overlay (height size)).Above above addr → above.Complete size

/-- The nodes above a node are found by going up to the layer of the root. -/
theorem HierarchyAddress.closed_of_iterate {addr : HierarchyAddress}
    (inside : InNetwork size addr)
    (complete : ∀ steps ≤ height size, Complete size (getParent^[steps] addr)) :
    addr.Closed size := by
  intro above higher
  have member := (inNetwork_iff_mem.mp inside).1
  have top := (overlay (height size)).layer_le_root (higher.mem member)
  have bound : (overlay (height size)).layer above ≤ height size := by
    rw [root_overlay] at top
    exact Nat.le_trans top (Nat.le_of_eq (layer_getRootOfNetworkSize size))
  obtain ⟨-, reached⟩ := higher.eq_iterate member
  rw [reached]
  exact complete _ (Nat.le_trans (Nat.sub_le _ _) bound)

/-- What is above the parent of a node is above the node. -/
theorem HierarchyAddress.Closed.parent {addr : HierarchyAddress} (closed : addr.Closed size)
    (notRoot : addr ≠ (overlay (height size)).root) : addr.getParent.Closed size :=
  fun above higher => closed above (higher.of_parent notRoot)

/-- Where there are two children, a service is the one of the overlay. -/
theorem IndexService.create_eq {addr : HierarchyAddress} (complete : addr.Complete size)
    (member : (overlay (height size)).Mem addr) :
    create size addr = create (2 ^ height size) addr := by
  have root : getRootOfNetworkSize (2 ^ height size) = getRootOfNetworkSize size :=
    root_overlay size
  unfold create
  rw [root]
  cases leaf : addr.isLeaf with
  | true => simp
  | false =>
    have inner : (overlay (height size)).layer addr ≠ 0 := beq_eq_false_iff_ne.mp leaf
    have bound : addr.getRightChild.rank < size := complete leaf
    have bound' : addr.getRightChild.rank < 2 ^ height size :=
      ((overlay (height size)).child_mem .right member inner).1
    simp [Nat.not_le.mpr bound, Nat.not_le.mpr bound']

/-- A service is the root's when its address is the root of the overlay. -/
theorem IndexService.isRoot_create_overlay {addr : HierarchyAddress} :
    (create size addr).isRoot = true ↔ addr = (overlay (height size)).root := by
  rw [root_overlay]
  exact beq_iff_eq

/-- The child that a service calls on the right is the right child of the overlay, or the left
one. -/
theorem IndexService.right_create_cases {addr : HierarchyAddress} (virtual : addr.isLeaf = false) :
    (create size addr).right = addr.getChild .right ∨
      (create size addr).right = addr.getChild .left := by
  have notLeaf : ¬ addr.isLeaf = true := by simp [virtual]
  show (if addr.isLeaf then _ else _) = _ ∨ (if addr.isLeaf then _ else _) = _
  rw [if_neg notLeaf]
  by_cases missing : addr.getRightChild.rank ≥ size
  · rw [if_pos missing]
    exact Or.inr rfl
  · rw [if_neg missing]
    exact Or.inl rfl

namespace State

/-! ## What is on record only shrinks -/

/-- What is on record at a node was on record there before. -/
def Shrinks (addr : HierarchyAddress) (s s' : State α V) : Prop :=
  ∀ side, (s'.index addr).record side ⊆ (s.index addr).record side

/-- Shrinking is transitive. -/
theorem Shrinks.trans {addr : HierarchyAddress} {s t u : State α V} (first : Shrinks addr s t)
    (second : Shrinks addr t u) : Shrinks addr s u := fun side => (second side).trans (first side)

/-- Nothing changes. -/
theorem Shrinks.refl (addr : HierarchyAddress) (s : State α V) : Shrinks addr s s :=
  fun _ => Finset.Subset.refl _

/-- Writing to another entry. -/
theorem Shrinks.setEntry {s : State α V} {addr here : HierarchyAddress} {entry : IndexEntry α}
    (shrinks : addr = here → ∀ side, entry.record side ⊆ (s.index here).record side) :
    Shrinks addr s (s.setEntry here entry) := by
  intro side
  by_cases same : addr = here
  · subst same
    rw [index_setEntry, Function.update_self]
    exact shrinks rfl side
  · rw [index_setEntry, Function.update_of_ne same]

/-- A call that may be left out. -/
theorem Shrinks.ite {left : Prop} [Decidable left] {addr : HierarchyAddress} {s t : State α V}
    {result : LocationInfo α × State α V} (before : Shrinks addr s t)
    (shrinks : Shrinks addr t result.2) :
    Shrinks addr s (if left then (LocationInfo.empty, t) else result).2 := by
  split
  · exact before
  · exact before.trans shrinks

/-- Nodes that miss a child have nothing on record. -/
def Vacant (size : Nat) (s : State α V) : Prop :=
  ∀ addr, (overlay (height size)).Mem addr → ¬ addr.Complete size →
    ∀ side, (s.index addr).record side = ∅

/-- Where records shrink, vacant nodes stay vacant. -/
theorem Vacant.shrinks {s s' : State α V} (vacant : s.Vacant size)
    (shrinks : ∀ addr, ¬ addr.Complete size → Shrinks addr s s') : s'.Vacant size := by
  intro addr member gap side
  apply Finset.subset_empty.mp
  rw [← vacant addr member gap side]
  exact shrinks addr gap side

/-- Writing the entry of a node leaves the entries above it alone. -/
theorem index_setEntry_above {s : State α V} {here addr : HierarchyAddress} {entry : IndexEntry α}
    (member : (overlay (height size)).Mem here) (notRoot : here ≠ (overlay (height size)).root)
    (above : (overlay (height size)).Above addr here.getParent) :
    (s.setEntry here entry).index addr = s.index addr := by
  rw [index_setEntry, Function.update_of_ne (above.ne_of_parent member notRoot)]

variable [DecidableEq α]

/-- Nothing is collected where nothing is on record. -/
theorem collect_of_vacant {entry : IndexEntry α} (vacant : ∀ side, entry.record side = ∅)
    (missing : Finset α) :
    (entry.collectChildOwnerships missing).left = ∅ ∧
      (entry.collectChildOwnerships missing).right = ∅ := by
  have left : entry.left = ∅ := vacant .left
  have right : entry.right = ∅ := vacant .right
  unfold IndexEntry.collectChildOwnerships
  simp only [left, right, Finset.inter_empty, ne_eq, not_true_eq_false, if_false]
  split <;> exact ⟨rfl, rfl⟩

/-- Collecting takes parts off records. -/
theorem shrinks_collectChildOwnerships (layer : Nat) (s : State α V) (here addr : HierarchyAddress)
    (missing : Finset α) :
    Shrinks addr s (s.collectChildOwnerships size layer here missing).2 := by
  induction layer generalizing s here missing with
  | zero =>
    have kept : Shrinks addr s (s.setEntry here ((s.index here).collectAtLeaf missing)) :=
      Shrinks.setEntry fun _ side => by cases side <;> exact Finset.Subset.refl _
    simp only [collectChildOwnerships]
    split <;> exact kept
  | succ layer ih =>
    have entry : Shrinks addr s
        (s.setEntry here ((s.index here).collectChildOwnerships missing).entry) :=
      Shrinks.setEntry fun _ side => IndexEntry.record_collectChildOwnerships _ missing side
    simp only [collectChildOwnerships]
    exact (entry.ite (ih _ _ _)).ite (ih _ _ _)

/-- A claim at a node adds to its records only, besides what the call to the parent does. -/
theorem shrinks_acquireOwnershipAt {ask : State α V → HierarchyAddress → HierarchyAddress →
      Finset α → LocationInfo α × State α V} {s : State α V} {here child addr : HierarchyAddress}
    {missing : Finset α} (outside : ¬ (overlay (height size)).Above addr here)
    (asked : ∀ s region, here ≠ getRootOfNetworkSize size →
      Shrinks addr s (ask s here.getParent here region).2) :
    Shrinks addr s (s.acquireOwnershipAt size ask here child missing).2 := by
  have entry (entry : IndexEntry α) : Shrinks addr s (s.setEntry here entry) :=
    Shrinks.setEntry fun same => absurd (same ▸ .refl addr) outside
  simp only [acquireOwnershipAt]
  refine Shrinks.ite ?_ (shrinks_collectChildOwnerships _ _ _ _ _)
  by_cases isRoot : here = getRootOfNetworkSize size
  · have root : (IndexService.create size here).isRoot = true := beq_iff_eq.mpr isRoot
    rw [if_pos (Or.inr root)]
    exact entry _
  · exact (entry _).ite (asked _ _ isRoot)

/-- An acquire adds to the records of the nodes above only. -/
theorem shrinks_acquireOwnershipFor (height' : Nat) (s : State α V)
    {here child addr : HierarchyAddress} (missing : Finset α)
    (outside : ¬ (overlay (height size)).Above addr here) :
    Shrinks addr s (s.acquireOwnershipFor size height' here child missing).2 := by
  induction height' generalizing s here child missing with
  | zero => exact shrinks_acquireOwnershipAt outside fun s _ _ => .refl addr s
  | succ height' ih =>
    refine shrinks_acquireOwnershipAt outside fun s region notRoot =>
      ih s region fun above => outside ?_
    rw [← root_overlay] at notRoot
    exact above.of_parent notRoot

/-! ## The overlay of the next power of two -/

/-- Where the nodes that miss a child are vacant, collecting does not come across them. -/
theorem collectChildOwnerships_eq (layer : Nat) {s : State α V} {here : HierarchyAddress}
    (missing : Finset α) (vacant : s.Vacant size) (member : (overlay (height size)).Mem here)
    (place : here.layer = layer) :
    s.collectChildOwnerships size layer here missing =
      s.collectChildOwnerships (2 ^ height size) layer here missing := by
  induction layer generalizing s here missing with
  | zero => rfl
  | succ layer ih =>
    have virtual : here.isLeaf = false := beq_eq_false_iff_ne.mpr (by omega)
    have inner : (overlay (height size)).layer here ≠ 0 := beq_eq_false_iff_ne.mp virtual
    simp only [collectChildOwnerships]
    by_cases complete : here.Complete size
    · have below (side : Side) := (overlay (height size)).layer_child side member inner
      have level (side : Side) : (here.getChild side).layer = layer := by
        have low : (here.getChild side).layer + 1 = here.layer := below side
        omega
      -- both calls start in states in which the nodes that miss a child are vacant
      have call (side : Side) {t : State α V} (vacant : t.Vacant size) (region : Finset α) :
          t.collectChildOwnerships size layer (here.getChild side) region =
            t.collectChildOwnerships (2 ^ height size) layer (here.getChild side) region :=
        ih region vacant ((overlay (height size)).child_mem side member inner) (level side)
      have entry : (s.setEntry here
          ((s.index here).collectChildOwnerships missing).entry).Vacant size :=
        vacant.shrinks fun addr _ =>
          Shrinks.setEntry fun _ side => IndexEntry.record_collectChildOwnerships _ missing side
      rw [IndexService.create_eq complete member, IndexService.right_create member inner,
        IndexService.left_create inner]
      show (LocationInfo.addParts _ _, _) = _
      rw [show (overlay (height size)).child .right here = here.getChild .right from rfl,
        show (overlay (height size)).child .left here = here.getChild .left from rfl,
        call .right entry, call .left]
      rw [← call .right entry]
      exact entry.shrinks fun addr _ =>
        (Shrinks.refl addr _).ite (shrinks_collectChildOwnerships _ _ _ _ _)
    · have spared := collect_of_vacant (vacant here member complete) missing
      simp only [spared, if_true]

/-- Where the nodes that miss a child are vacant, a claim at a node with two children does not come
across them, if the call to the parent does not. -/
theorem acquireOwnershipAt_eq {ask ask' : State α V → HierarchyAddress → HierarchyAddress →
      Finset α → LocationInfo α × State α V} {s : State α V} {here : HierarchyAddress} {side : Side}
    {missing : Finset α} (vacant : s.Vacant size) (member : (overlay (height size)).Mem here)
    (inner : (overlay (height size)).layer here ≠ 0) (complete : here.Complete size)
    (same : ∀ s region, s.Vacant size → here ≠ (overlay (height size)).root →
      ask s here.getParent here region = ask' s here.getParent here region ∧
        (ask s here.getParent here region).2.Vacant size) :
    s.acquireOwnershipAt size ask here (here.getChild side) missing =
      s.acquireOwnershipAt (2 ^ height size) ask' here (here.getChild side) missing := by
  have service := IndexService.create_eq complete member
  have other := newChild_eq side member inner
  have entry (entry : IndexEntry α) : (s.setEntry here entry).Vacant size :=
    vacant.shrinks fun addr gap => Shrinks.setEntry fun same => absurd (same ▸ complete) gap
  rw [show (overlay (height size)).child side here = here.getChild side from rfl] at other
  simp only [acquireOwnershipAt, service, other]
  by_cases isRoot : here = (overlay (height size)).root
  · have root := IndexService.isRoot_create.mpr isRoot
    rw [if_pos (Or.inr root), if_pos (Or.inr root), collectChildOwnerships_eq _ _ (entry _)
      ((overlay (height size)).child_mem side.other member inner) rfl]
  · obtain ⟨asked, after⟩ := same _
      ((s.index here).acquireOwnershipFor (IndexService.create (2 ^ height size) here)
        (here.getChild side) missing).missing (entry _) isRoot
    rw [show (IndexService.create (2 ^ height size) here).parent = here.getParent from rfl,
      ← asked,
      collectChildOwnerships_eq _ _ _ ((overlay (height size)).child_mem side.other member inner)
        rfl]
    split
    · exact entry _
    · exact after

/-- Below nodes that have two children, where the others are vacant, a claim passes as in the
overlay of the next power of two. -/
theorem acquireOwnershipFor_eq (up : Nat) {s : State α V} {here : HierarchyAddress} (side : Side)
    (missing : Finset α) (vacant : s.Vacant size) (member : (overlay (height size)).Mem here)
    (inner : (overlay (height size)).layer here ≠ 0) (closed : here.Closed size) :
    s.acquireOwnershipFor size up here (here.getChild side) missing =
      s.acquireOwnershipFor (2 ^ height size) up here (here.getChild side) missing := by
  induction up generalizing s here side missing with
  | zero =>
    exact acquireOwnershipAt_eq vacant member inner (closed here (.refl here))
      fun s _ vacant _ => ⟨rfl, vacant⟩
  | succ up ih =>
    refine acquireOwnershipAt_eq vacant member inner (closed here (.refl here))
      fun s region vacant notRoot => ?_
    have high : (overlay (height size)).Mem here.getParent :=
      (overlay (height size)).parent_mem member notRoot
    have inner' := (overlay (height size)).layer_parent_ne_zero member notRoot
    have closed' : here.getParent.Closed size := closed.parent notRoot
    have place : here.getParent.getChild here.getSide = here :=
      (overlay (height size)).child_side member notRoot
    have same := ih here.getSide region vacant high inner' closed'
    rw [place] at same
    refine ⟨same, vacant.shrinks fun addr gap => ?_⟩
    apply shrinks_acquireOwnershipFor
    intro above
    exact gap (closed' addr above)

/-- Updating caches does not touch records. -/
theorem shrinks_updateCaches (s : State α V) (missing : Finset α) (newRank : Nat)
    (addr : HierarchyAddress) : Shrinks addr s (s.updateCaches size missing newRank) := by
  intro side
  unfold updateCaches
  simp only
  split <;> cases side <;> exact Finset.Subset.refl _

/-- An acquire adds to the records of the nodes above the leaf only. -/
theorem shrinks_acquireReadWrite (s : State α V) {leaf addr : HierarchyAddress} (region : Finset α)
    (outside : ¬ (overlay (height size)).Above addr leaf) :
    Shrinks addr s (s.acquireReadWrite size leaf region) := by
  have entry (t : State α V) (missing : Finset α) :
      Shrinks addr t (t.setEntry leaf ((t.index leaf).acquireOwnership missing)) :=
    Shrinks.setEntry fun same => absurd (same ▸ .refl addr) outside
  have owned (t : State α V) (missing : Finset α) :
      Shrinks addr t (t.acquireOwnership size leaf missing).2 := by
    simp only [acquireOwnership]
    by_cases isRoot : leaf = getRootOfNetworkSize size
    · have root : (IndexService.create size leaf).isRoot = true := beq_iff_eq.mpr isRoot
      rw [if_pos root]
      exact entry t missing
    · rw [← root_overlay] at isRoot
      refine (entry t missing).ite (shrinks_acquireOwnershipFor _ _ _ fun above => outside ?_)
      exact above.of_parent isRoot
  have updated := @shrinks_updateCaches α V size _ s (region \ (s.index leaf).full) leaf.rank addr
  unfold acquireReadWrite
  simp only
  split
  · intro side
    rw [index_transfers]
    exact updated.trans (owned _ _) side
  · exact .refl addr s

/-- Below nodes that have two children, where the others are vacant, a leaf acquires ownership as in
the overlay of the next power of two. -/
theorem acquireOwnership_eq {s : State α V} {leaf : HierarchyAddress} (missing : Finset α)
    (vacant : s.Vacant size) (member : (overlay (height size)).Mem leaf)
    (closed : leaf.Closed size) :
    s.acquireOwnership size leaf missing = s.acquireOwnership (2 ^ height size) leaf missing := by
  have complete : leaf.Complete size := closed leaf (.refl leaf)
  have entry : (s.setEntry leaf ((s.index leaf).acquireOwnership missing)).Vacant size :=
    vacant.shrinks fun addr gap => Shrinks.setEntry fun same => absurd (same ▸ complete) gap
  simp only [acquireOwnership, IndexService.create_eq complete member]
  by_cases isRoot : leaf = (overlay (height size)).root
  · have root := IndexService.isRoot_create.mpr isRoot
    rw [if_pos root, if_pos root]
  · have root : ¬ (IndexService.create (2 ^ height size) leaf).isRoot = true := fun h =>
      isRoot (IndexService.isRoot_create.mp h)
    have place : leaf.getParent.getChild leaf.getSide = leaf :=
      (overlay (height size)).child_side member isRoot
    have high : (overlay (height size)).Mem leaf.getParent :=
      (overlay (height size)).parent_mem member isRoot
    have same := acquireOwnershipFor_eq
      ((getRootOfNetworkSize size).layer - leaf.getParent.layer) leaf.getSide missing entry high
      ((overlay (height size)).layer_parent_ne_zero member isRoot) (closed.parent isRoot)
    rw [place] at same
    rw [if_neg root, if_neg root, show getRootOfNetworkSize (2 ^ height size) =
      getRootOfNetworkSize size from root_overlay size]
    exact same

/-- Below nodes that have two children, where the others are vacant, an acquire takes every element
of its region. -/
theorem grid_acquireReadWrite_of_closed (x : α) {s : State α V} {leaf : HierarchyAddress}
    (region : Finset α) (vacant : s.Vacant size) (member : (overlay (height size)).Mem leaf)
    (closed : leaf.Closed size) :
    (s.acquireReadWrite size leaf region).grid x =
      if x ∈ region then (overlay (height size)).take (s.grid x) leaf else s.grid x := by
  apply grid_acquireReadWrite_of x member
  apply acquireOwnership_eq _ _ member closed
  exact vacant.shrinks fun addr _ => shrinks_updateCaches s _ _ addr

end State

end AllScale
