import AllScale.DataItemManager.Gaps

/-!
# Where ownership is placed in networks of any size

A node without a right child takes a claim of its left child for one of the right child, since both
have the same address there. The first acquire that comes across such a node puts its region on
record for the child that is missing; until then every element of a leaf is on record on the side of
the leaf at all nodes above.
-/

namespace AllScale

open TokenTree HierarchyAddress Transition

variable {α V : Type} {size : Nat} [DecidableEq α]

namespace State

/-! ## Coming across a node without a right child -/

/-- Collecting touches entries below the node only. -/
theorem index_collectChildOwnerships (layer : Nat) (s : State α V) {here addr : HierarchyAddress}
    (missing : Finset α) (member : (overlay (height size)).Mem here) (place : here.layer = layer)
    (outside : ¬ (overlay (height size)).Above here addr) :
    (s.collectChildOwnerships size layer here missing).2.index addr = s.index addr := by
  have apart : addr ≠ here := fun same => outside (same ▸ .refl addr)
  induction layer generalizing s here missing with
  | zero =>
    have entry :
        (s.setEntry here ((s.index here).collectAtLeaf missing)).index addr = s.index addr := by
      rw [index_setEntry, Function.update_of_ne apart]
    simp only [collectChildOwnerships]
    split <;> exact entry
  | succ layer ih =>
    have virtual : here.isLeaf = false := beq_eq_false_iff_ne.mpr (by omega)
    have inner : (overlay (height size)).layer here ≠ 0 := beq_eq_false_iff_ne.mp virtual
    have call (side : Side) (t : State α V) (region : Finset α) :
        (if region = ∅ then (LocationInfo.empty, t)
          else t.collectChildOwnerships size layer (here.getChild side) region).2.index addr =
          t.index addr := by
      have below : (here.getChild side).layer + 1 = here.layer :=
        (overlay (height size)).layer_child side member inner
      have level : (here.getChild side).layer = layer := by omega
      have node : (overlay (height size)).Mem (here.getChild side) :=
        (overlay (height size)).child_mem side member inner
      have child : ¬ (overlay (height size)).Above (here.getChild side) addr := fun above =>
        outside (LayeredTree.Above.of_child (s := side) member inner above)
      split
      · rfl
      · exact ih t _ node level child fun same => child (same ▸ .refl addr)
    have left : (IndexService.create size here).left = here.getChild .left :=
      if_neg (by simp [virtual])
    simp only [collectChildOwnerships, left, call .left]
    rcases @IndexService.right_create_cases size _ virtual with right | right
    · rw [right, call .right, index_setEntry, Function.update_of_ne apart]
    · rw [right, call .left, index_setEntry, Function.update_of_ne apart]

/-- A claim for which nothing is found on the other side is recorded and passed on as it is. -/
theorem acquireOwnershipFor_of_free {entry : IndexEntry α} {service : IndexService}
    {child : HierarchyAddress} {missing : Finset α} {side : Side}
    (place : (child == service.right) = (side == .right)) (free : entry.record side.other = ∅) :
    (entry.acquireOwnershipFor service child missing).part = ∅ ∧
      (entry.acquireOwnershipFor service child missing).missing = missing ∧
      missing ⊆ (entry.acquireOwnershipFor service child missing).entry.record side := by
  have unrecorded : ∀ x, (entry.cell x).on side.other = false := by
    intro x
    have outside : x ∉ entry.record side.other := by simp [free]
    rw [IndexEntry.mem_record] at outside
    exact Bool.eq_false_of_not_eq_true outside
  refine ⟨?_, ?_, ?_⟩
  · ext x
    simp [IndexEntry.mem_part place, unrecorded x]
  · ext x
    simp [IndexEntry.mem_missing place, unrecorded x]
  · rw [(IndexEntry.record_acquireOwnershipFor place).1]
    exact Finset.subset_union_right

/-- A node without a right child takes a claim of its only child for one of the right child. -/
theorem beq_right_of_gap {here : HierarchyAddress} {side : Side} (gap : ¬ here.Complete size)
    (inside : (here.getChild side).rank < size) :
    (here.getChild side == (IndexService.create size here).right) = true := by
  obtain ⟨virtual, missing⟩ : here.isLeaf = false ∧ ¬ here.getRightChild.rank < size := by
    simpa [HierarchyAddress.Complete] using gap
  have turned : side = .left := by
    cases side with
    | left => rfl
    | right => exact absurd inside missing
  have right : (IndexService.create size here).right = here.getLeftChild := by
    show (if here.isLeaf then _ else _) = _
    rw [if_neg (by simp [virtual]), if_pos (Nat.not_lt.mp missing)]
  rw [turned, right]
  exact beq_self_eq_true _

/-- A claim is collected from no node below the claiming child. -/
theorem index_acquireOwnershipAt {ask : State α V → HierarchyAddress → HierarchyAddress → Finset α →
      LocationInfo α × State α V} {s : State α V} {here addr : HierarchyAddress} {side : Side}
    {missing : Finset α} (member : (overlay (height size)).Mem here)
    (inner : (overlay (height size)).layer here ≠ 0) (inside : (here.getChild side).rank < size)
    (node : (overlay (height size)).Mem addr)
    (below : (overlay (height size)).Above (here.getChild side) addr)
    (gap : ¬ here.Complete size → (s.index here).left = ∅)
    (asked : ∀ t region, here ≠ (overlay (height size)).root →
      (∀ n, n ≠ here → t.index n = s.index n) →
      (ask t here.getParent here region).2.index addr = t.index addr) :
    (s.acquireOwnershipAt size ask here (here.getChild side) missing).2.index addr =
      s.index addr := by
  have apart : addr ≠ here :=
    (LayeredTree.Above.ne_of_child (s := side) below node member inner).symm
  have entry (entry : IndexEntry α) : (s.setEntry here entry).index addr = s.index addr := by
    rw [index_setEntry, Function.update_of_ne apart]
  have others (entry : IndexEntry α) (n : HierarchyAddress) (different : n ≠ here) :
      (s.setEntry here entry).index n = s.index n := by
    rw [index_setEntry, Function.update_of_ne different]
  have upper (entry' : IndexEntry α) (region : Finset α) :
      (if region = ∅ ∨ (IndexService.create size here).isRoot = true
        then (LocationInfo.empty, s.setEntry here entry')
        else ask (s.setEntry here entry') here.getParent here region).2.index addr =
        s.index addr := by
    split
    · exact entry entry'
    · rename_i goesOn
      have notRoot : here ≠ (overlay (height size)).root := fun isRoot =>
        goesOn (Or.inr (IndexService.isRoot_create_overlay.mpr isRoot))
      rw [asked _ _ notRoot (others entry'), entry entry']
  simp only [acquireOwnershipAt]
  by_cases complete : here.Complete size
  · have other := newChild_eq side member inner
    rw [← IndexService.create_eq complete member] at other
    rw [show (overlay (height size)).child side here = here.getChild side from rfl] at other
    rw [other]
    split
    · exact upper _ _
    · rw [index_collectChildOwnerships _ _ _ ((overlay (height size)).child_mem _ member inner) rfl]
      · exact upper _ _
      · exact LayeredTree.Above.not_sibling (s := side) node member inner below
  · have free := @acquireOwnershipFor_of_free α _ (s.index here) _ _ missing .right
      (beq_right_of_gap complete inside) (gap complete)
    rw [if_pos free.1]
    exact upper _ _

/-- A claim leaves the entries below the claiming child alone, when the nodes above that miss a
child have nothing on record for the left one. -/
theorem index_acquireOwnershipFor (up : Nat) {s : State α V} {here addr : HierarchyAddress}
    {side : Side} (missing : Finset α) (member : (overlay (height size)).Mem here)
    (inner : (overlay (height size)).layer here ≠ 0) (inside : (here.getChild side).rank < size)
    (node : (overlay (height size)).Mem addr)
    (below : (overlay (height size)).Above (here.getChild side) addr)
    (gaps : ∀ n, (overlay (height size)).Above n here → ¬ n.Complete size →
      (s.index n).left = ∅) :
    (s.acquireOwnershipFor size up here (here.getChild side) missing).2.index addr =
      s.index addr := by
  induction up generalizing s here side missing with
  | zero =>
    exact index_acquireOwnershipAt member inner inside node below (gaps here (.refl here))
      fun t _ _ _ => rfl
  | succ up ih =>
    apply index_acquireOwnershipAt member inner inside node below (gaps here (.refl here))
    intro t region notRoot same
    have place : here.getParent.getChild here.getSide = here :=
      (overlay (height size)).child_side member notRoot
    have lower := rank_lt_of_getChild side member inner inside
    have up := @ih t here.getParent here.getSide region
      ((overlay (height size)).parent_mem member notRoot)
      ((overlay (height size)).layer_parent_ne_zero member notRoot)
    rw [place] at up
    apply up lower (LayeredTree.Above.of_child (s := side) member inner below)
    intro n above gap
    rw [same n (above.ne_of_parent member notRoot)]
    exact gaps n (above.of_parent notRoot) gap

/-- Where nothing is found on the other side, a claim is recorded and goes on to the parent as it
is. -/
theorem acquireOwnershipAt_of_free {ask : State α V → HierarchyAddress → HierarchyAddress →
      Finset α → LocationInfo α × State α V} {s : State α V} {here child : HierarchyAddress}
    {missing : Finset α} {side : Side}
    (place : (child == (IndexService.create size here).right) = (side == .right))
    (free : (s.index here).record side.other = ∅) :
    ∃ entry : IndexEntry α, missing ⊆ entry.record side ∧
      (s.acquireOwnershipAt size ask here child missing).2 =
        (if missing = ∅ ∨ (IndexService.create size here).isRoot = true
          then (LocationInfo.empty, s.setEntry here entry)
          else ask (s.setEntry here entry) here.getParent here missing).2 := by
  obtain ⟨empty, all, recorded⟩ := @acquireOwnershipFor_of_free α _ (s.index here) _ _ missing side
    place free
  refine ⟨_, recorded, ?_⟩
  simp only [acquireOwnershipAt, empty, all, if_true]
  rfl

/-- A node without a right child puts a claim on record for that missing child. -/
theorem right_acquireOwnershipAt {ask : State α V → HierarchyAddress → HierarchyAddress →
      Finset α → LocationInfo α × State α V} {s : State α V} {gap : HierarchyAddress} {side : Side}
    {missing : Finset α} (incomplete : ¬ gap.Complete size)
    (inside : (gap.getChild side).rank < size) (free : (s.index gap).left = ∅)
    (asked : ∀ entry : IndexEntry α, gap ≠ (overlay (height size)).root →
      (ask (s.setEntry gap entry) gap.getParent gap missing).2.index gap = entry) :
    missing ⊆
      ((s.acquireOwnershipAt size ask gap (gap.getChild side) missing).2.index gap).right := by
  obtain ⟨entry, recorded, result⟩ := @acquireOwnershipAt_of_free α V size _ ask s gap
    (gap.getChild side) missing .right (beq_right_of_gap incomplete inside) free
  have written : ((s.setEntry gap entry).index gap).right = entry.right := by
    rw [index_setEntry, Function.update_self]
  rw [result]
  split
  · rw [written]
    exact recorded
  · rename_i goesOn
    have notRoot : gap ≠ (overlay (height size)).root := fun isRoot =>
      goesOn (Or.inr (IndexService.isRoot_create_overlay.mpr isRoot))
    rw [asked entry notRoot]
    exact recorded

/-- A claim that reaches a node without a right child is put on record for that missing child. -/
theorem right_acquireOwnershipFor (up : Nat) {s : State α V} {here gap : HierarchyAddress}
    {side : Side} {missing : Finset α} (member : (overlay (height size)).Mem here)
    (inner : (overlay (height size)).layer here ≠ 0) (inside : (here.getChild side).rank < size)
    (above : (overlay (height size)).Above gap here) (incomplete : ¬ gap.Complete size)
    (enough : gap.layer ≤ here.layer + up)
    (empty : ∀ n, (overlay (height size)).Above n here → (overlay (height size)).Above gap n →
      ∀ side, (s.index n).record side = ∅)
    (gaps : ∀ n, (overlay (height size)).Above n here → ¬ n.Complete size →
      (s.index n).left = ∅) (nonempty : missing ≠ ∅) :
    missing ⊆
      ((s.acquireOwnershipFor size up here (here.getChild side) missing).2.index gap).right := by
  induction up generalizing s here side with
  | zero =>
    have low : here.layer ≤ gap.layer := above.layer_le member
    obtain rfl : gap = here := above.eq_of_layer (.refl here) member (by
      show gap.layer = here.layer
      omega)
    apply right_acquireOwnershipAt incomplete inside (gaps gap (.refl gap) incomplete)
    intro entry _
    rw [index_setEntry, Function.update_self]
  | succ up ih =>
    have lower := rank_lt_of_getChild side member inner inside
    by_cases here' : gap = here
    · subst here'
      apply right_acquireOwnershipAt incomplete inside (gaps gap (.refl gap) incomplete)
      intro entry notRoot
      have kept := @index_acquireOwnershipFor α V size _ up (s.setEntry gap entry) gap.getParent
        gap gap.getSide missing ((overlay (height size)).parent_mem member notRoot)
        ((overlay (height size)).layer_parent_ne_zero member notRoot)
      rw [show gap.getParent.getChild gap.getSide = gap from
        (overlay (height size)).child_side member notRoot] at kept
      rw [kept lower member (.refl gap), index_setEntry, Function.update_self]
      intro n above' incomplete'
      rw [index_setEntry_above member notRoot above']
      exact gaps n (above'.of_parent notRoot) incomplete'
    · obtain ⟨notRoot, above'⟩ := above.parent_of_ne here'
      -- nothing is on record at the node, so it does not matter for which side the claim counts
      obtain ⟨turn, place⟩ :=
        IndexEntry.exists_claimant (IndexService.create size here) (here.getChild side)
      obtain ⟨entry, -, result⟩ := @acquireOwnershipAt_of_free α V size _
        (acquireOwnershipFor size up) s here (here.getChild side) missing turn place
        (empty here (.refl here) above turn.other)
      have root : ¬ (IndexService.create size here).isRoot = true := fun root =>
        notRoot (IndexService.isRoot_create_overlay.mp root)
      have raised : here.getParent.layer = here.layer + 1 :=
        (overlay (height size)).layer_parent member notRoot
      have child : here.getParent.getChild here.getSide = here :=
        (overlay (height size)).child_side member notRoot
      have upper {n : HierarchyAddress} (higher : (overlay (height size)).Above n here.getParent) :
          (s.setEntry here entry).index n = s.index n ∧ (overlay (height size)).Above n here :=
        ⟨index_setEntry_above member notRoot higher, higher.of_parent notRoot⟩
      have onWay := @ih (s.setEntry here entry) here.getParent here.getSide
        ((overlay (height size)).parent_mem member notRoot)
        ((overlay (height size)).layer_parent_ne_zero member notRoot)
      rw [child] at onWay
      rw [acquireOwnershipFor, result, if_neg (by simp [nonempty, root])]
      apply onWay lower above' (by omega)
      · intro n higher between side
        rw [(upper higher).1]
        exact empty n (upper higher).2 between side
      · intro n higher incomplete'
        rw [(upper higher).1]
        exact gaps n (upper higher).2 incomplete'

/-! ## Runs of acquires -/

/-- Where ownership is on record: at every node above a leaf that owns an element, on the side of
the leaf. Nothing is on record for a right child that is not in the network, so that neither
collecting nor a lookup goes there. -/
structure Placed (size : Nat) (s : State α V) : Prop where
  /-- An element of a leaf is on record on the side of the leaf, at all nodes above. -/
  recorded : ∀ leaf addr x, InNetwork size leaf → leaf.isLeaf = true → x ∈ (s.index leaf).full →
    (overlay (height size)).Above addr leaf → addr ≠ getRootOfNetworkSize size →
    x ∈ (s.index addr.getParent).record addr.getSide ∧
      x ∉ (s.index addr.getParent).record addr.getSide.other
  /-- Nothing is on record for a right child that is missing. -/
  right : ∀ addr, InNetwork size addr → ¬ addr.Complete size → (s.index addr).right = ∅
  /-- Nothing is collected from a right child that is missing. -/
  collected : ∀ addr missing, InNetwork size addr → ¬ addr.Complete size →
    ((s.index addr).collectChildOwnerships missing).right = ∅
  /-- A right child that is missing is not asked for a location. -/
  located : ∀ addr region, InNetwork size addr → ¬ addr.Complete size →
    ((s.index addr).locate (.create size addr) region).right = ∅

/-- The records of a run whose acquires have not come across a node without a right child. -/
structure Orderly (size : Nat) (s : State α V) : Prop where
  /-- The records say exactly what is managed below. -/
  routed : ∀ x, (overlay (height size)).Routed (s.grid x)
  /-- Inner nodes manage what they have on record only. -/
  unparked : ∀ x addr, (overlay (height size)).layer addr ≠ 0 → (s.grid x addr).parked = false
  /-- Nodes that miss a child have nothing on record. -/
  vacant : s.Vacant size

/-- The initial state is orderly. -/
theorem orderly_initial : (State.initial : State α V).Orderly size := by
  refine ⟨fun x => law_initial (fun _ => rfl) x, fun x addr _ => ?_, fun addr _ _ side => ?_⟩
  · rw [State.grid_initial]
    rfl
  · cases side <;> rfl

/-- Whether an element is on record, seen from the element. -/
theorem mem_record {s : State α V} {addr : HierarchyAddress} {side : Side} {x : α} :
    x ∈ (s.index addr).record side ↔ (s.grid x addr).on side = true :=
  IndexEntry.mem_record

/-- Acquires of an empty region do nothing. -/
theorem acquireReadWrite_empty (s : State α V) (leaf : HierarchyAddress) :
    s.acquireReadWrite size leaf ∅ = s := by
  unfold acquireReadWrite
  simp

namespace Orderly

variable {s : State α V}

/-- Where records are orderly, ownership is on record as it should be. -/
theorem placed (orderly : s.Orderly size) : s.Placed size := by
  have right (addr : HierarchyAddress) (inside : InNetwork size addr) (gap : ¬ addr.Complete size) :
      (s.index addr).right = ∅ := orderly.vacant addr (inNetwork_iff_mem.mp inside).1 gap .right
  refine ⟨fun leaf addr x inside low owned above notRoot => ?_, right,
    fun addr missing inside gap => ?_, fun addr region inside gap => ?_⟩
  · obtain ⟨member, -⟩ := inNetwork_iff_mem.mp inside
    have law := orderly.routed x
    have held : (s.grid x leaf).held = true := by simpa using owned
    have managed : (s.grid x addr).managed = true :=
      (law.trail_eq member (IndexService.isLeaf_iff.mp low) held above).1
    rw [← root_overlay] at notRoot
    have node := above.mem member
    have recorded : (s.grid x addr.getParent).on addr.getSide = true :=
      (law.edge addr node notRoot).trans managed
    refine ⟨mem_record.mpr recorded, fun other => ?_⟩
    have single :=
      (law.but addr).on_other ((overlay (height size)).parent_mem node notRoot) recorded
    rw [show (overlay (height size)).parent addr = addr.getParent from rfl] at single
    rw [mem_record.mp other] at single
    exact Bool.noConfusion single
  · have empty := right addr inside gap
    apply Finset.eq_empty_of_forall_notMem
    intro x found
    have recorded := (IndexEntry.mem_right_collect.mp found).2.2
    simp [empty] at recorded
  · have empty := right addr inside gap
    unfold IndexEntry.locate
    simp only [empty, Finset.inter_empty, ite_self, apply_ite IndexEntry.Located.right]

/-- An acquire of nothing, or at a leaf below nodes that have two children, keeps records
orderly. -/
theorem acquire (orderly : s.Orderly size) {leaf : HierarchyAddress} {region : Finset α}
    (inside : InNetwork size leaf) (low : leaf.isLeaf = true)
    (met : region = ∅ ∨ leaf.Closed size) : (s.acquireReadWrite size leaf region).Orderly size := by
  rcases met with none | closed
  · rwa [none, acquireReadWrite_empty]
  · obtain ⟨member, -⟩ := inNetwork_iff_mem.mp inside
    have flat : (overlay (height size)).layer leaf = 0 := IndexService.isLeaf_iff.mp low
    have grid (x : α) := grid_acquireReadWrite_of_closed x region orderly.vacant member closed
    refine ⟨fun x => ?_, fun x addr inner => ?_, orderly.vacant.shrinks fun addr gap => ?_⟩
    · rw [grid x]
      split
      · apply (orderly.routed x).take (fun _ => rfl) member flat
        intro m _ inner _ _ parked
        rw [orderly.unparked x m inner] at parked
        exact Bool.noConfusion parked
      · exact orderly.routed x
    · rw [grid x]
      split
      · have different : addr ≠ leaf := fun same => inner (same ▸ flat)
        cases parked : ((overlay (height size)).take (s.grid x) leaf addr).parked with
        | false => rfl
        | true =>
          rw [← orderly.unparked x addr inner]
          exact (LayeredTree.parked_of_take different parked).symm
      · exact orderly.unparked x addr inner
    · apply shrinks_acquireReadWrite
      intro above
      exact gap (closed addr above)

/-- Below a node that misses a child nothing is managed. -/
theorem unmanaged_of_gap (orderly : s.Orderly size) {gap addr : HierarchyAddress}
    (incomplete : ¬ gap.Complete size) (member : (overlay (height size)).Mem addr)
    (above : (overlay (height size)).Above gap addr) (x : α) :
    (s.grid x addr).managed = false := by
  have inner : (overlay (height size)).layer gap ≠ 0 := by
    intro flat
    exact incomplete fun virtual => absurd flat (IndexService.isLeaf_false_iff.mp virtual)
  have node := above.mem member
  have free (side : Side) : (s.grid x gap).on side = false := by
    cases recorded : (s.grid x gap).on side with
    | false => rfl
    | true =>
      have found := mem_record.mpr recorded
      rw [orderly.vacant gap node incomplete side] at found
      exact absurd found (Finset.notMem_empty x)
  cases managed : (s.grid x addr).managed with
  | false => rfl
  | true =>
    by_cases same : gap = addr
    · subst same
      have parked := orderly.unparked x gap inner
      have left : (s.grid x gap).left = false := free .left
      have right : (s.grid x gap).right = false := free .right
      simp only [Cell.parked, Cell.managed, left, right, Bool.or_false, Bool.not_false,
        Bool.and_true] at parked managed
      rw [parked] at managed
      exact Bool.noConfusion managed
    · obtain ⟨side, below⟩ := above.child_of_ne member same
      have law := orderly.routed x
      have child := (overlay (height size)).child_mem side node inner
      have recorded := law.edge _ child ((overlay (height size)).child_ne_root side node inner)
      rw [law.managed_of_above member managed below,
        (overlay (height size)).recorded_child side node inner, free side] at recorded
      exact Bool.noConfusion recorded

/-- Below a node that misses a child nothing is on record. -/
theorem record_of_gap (orderly : s.Orderly size) {gap addr : HierarchyAddress}
    (incomplete : ¬ gap.Complete size) (member : (overlay (height size)).Mem addr)
    (above : (overlay (height size)).Above gap addr) (side : Side) :
    (s.index addr).record side = ∅ := by
  apply Finset.eq_empty_of_forall_notMem
  intro x found
  have managed := Cell.managed_of_on (mem_record.mp found)
  rw [orderly.unmanaged_of_gap incomplete member above x] at managed
  exact Bool.noConfusion managed

/-- A leaf below a node that misses a child misses every region. -/
theorem missing_of_gap (orderly : s.Orderly size) {gap leaf : HierarchyAddress}
    (incomplete : ¬ gap.Complete size) (member : (overlay (height size)).Mem leaf)
    (above : (overlay (height size)).Above gap leaf) (region : Finset α) :
    region \ (s.index leaf).full = region := by
  apply Finset.Subset.antisymm Finset.sdiff_subset
  intro x wanted
  refine Finset.mem_sdiff.mpr ⟨wanted, fun owned => ?_⟩
  have managed : (s.grid x leaf).managed = true := by simp [Cell.managed, owned]
  rw [orderly.unmanaged_of_gap incomplete member above x] at managed
  exact Bool.noConfusion managed

end Orderly

/-- Neither updating caches nor the claim at a leaf puts anything on record above the leaf. -/
theorem record_claimed {s : State α V} {leaf n : HierarchyAddress}
    (member : (overlay (height size)).Mem leaf) (notRoot : leaf ≠ (overlay (height size)).root)
    (region : Finset α) (entry : IndexEntry α) {side : Side}
    (upper : (overlay (height size)).Above n leaf.getParent)
    (empty : (s.index n).record side = ∅) :
    (((s.updateCaches size region leaf.rank).setEntry leaf entry).index n).record side = ∅ := by
  rw [index_setEntry_above member notRoot upper]
  apply Finset.subset_empty.mp
  rw [← empty]
  exact shrinks_updateCaches s region leaf.rank n side

/-- An acquire at a leaf below a node that misses a child records its region for that child. -/
theorem right_acquireReadWrite {s : State α V} (orderly : s.Orderly size)
    {leaf gap : HierarchyAddress} {region : Finset α} (inside : InNetwork size leaf)
    (low : leaf.isLeaf = true) (nonempty : region ≠ ∅)
    (above : (overlay (height size)).Above gap leaf) (incomplete : ¬ gap.Complete size) :
    ((s.acquireReadWrite size leaf region).index gap).right ≠ ∅ := by
  obtain ⟨member, bound⟩ := inNetwork_iff_mem.mp inside
  have different : gap ≠ leaf := fun same => incomplete fun virtual => by
    rw [same, low] at virtual
    exact Bool.noConfusion virtual
  obtain ⟨notRoot, higher⟩ := above.parent_of_ne different
  have root : ¬ (IndexService.create size leaf).isRoot = true := fun root =>
    notRoot (IndexService.isRoot_create_overlay.mp root)
  have place : leaf.getParent.getChild leaf.getSide = leaf :=
    (overlay (height size)).child_side member notRoot
  have recorded := @right_acquireOwnershipFor α V size _
    ((getRootOfNetworkSize size).layer - leaf.getParent.layer)
    ((s.updateCaches size region leaf.rank).setEntry leaf
      (((s.updateCaches size region leaf.rank).index leaf).acquireOwnership region))
    leaf.getParent gap leaf.getSide region ((overlay (height size)).parent_mem member notRoot)
    ((overlay (height size)).layer_parent_ne_zero member notRoot)
  rw [place] at recorded
  intro empty
  apply nonempty
  apply Finset.subset_empty.mp
  rw [← empty]
  unfold acquireReadWrite
  simp only [orderly.missing_of_gap incomplete member above region]
  rw [if_pos nonempty, index_transfers]
  simp only [acquireOwnership]
  rw [if_neg root]
  apply recorded bound higher incomplete
  · have top := (overlay (height size)).layer_le_root (above.mem member)
    rw [root_overlay] at top
    have top : gap.layer ≤ (getRootOfNetworkSize size).layer := top
    omega
  · intro n upper between side
    have node := upper.mem ((overlay (height size)).parent_mem member notRoot)
    exact record_claimed member notRoot region _ upper
      (orderly.record_of_gap incomplete node between side)
  · intro n upper gap
    have node := upper.mem ((overlay (height size)).parent_mem member notRoot)
    exact record_claimed member notRoot region _ upper (orderly.vacant n node gap .left)
  · exact nonempty

end State

/-- The acquires of a network of `size` localities, one complete acquire of a region at a leaf after
the other. -/
def acquires (α V : Type) [DecidableEq α] (size : Nat) :
    System (State α V) (HierarchyAddress × Finset α) where
  start := .initial
  step s action s' := InNetwork size action.1 ∧ action.1.isLeaf = true ∧
    s' = s.acquireReadWrite size action.1 action.2

/-- A run goes on with an acquire. -/
theorem run_acquires {history : List (State α V × HierarchyAddress × Finset α)} {s : State α V}
    (leaf : HierarchyAddress) (region : Finset α) (run : (acquires α V size).Run history s)
    (inside : InNetwork size leaf) (low : leaf.isLeaf = true) :
    (acquires α V size).Run ((s, leaf, region) :: history) (s.acquireReadWrite size leaf region) :=
  run.step ⟨inside, low, rfl⟩

/-- In a network of any size, ownership is on record where the overlay places it in all states of a
run of acquires exactly if every region that is not empty is acquired at a leaf below nodes that
have two children. -/
theorem placed_run_iff {size : Nat} {history : List (State α V × HierarchyAddress × Finset α)}
    {s : State α V} (run : (acquires α V size).Run history s) :
    System.Always (State.Placed size) history s ↔
      System.Meets (fun _ action => action.2 = ∅ ∨ action.1.Closed size) history := by
  refine run.always_iff_meets State.orderly_initial (fun s => State.Orderly.placed) ?_ ?_
  · rintro s ⟨leaf, region⟩ s' orderly met ⟨inside, low, result⟩
    rw [result]
    exact orderly.acquire inside low met
  · rintro s ⟨leaf, region⟩ s' orderly ⟨inside, low, result⟩ placed
    by_contra unmet
    obtain ⟨nonempty, open'⟩ := not_or.mp unmet
    obtain ⟨gap, notClosed⟩ := not_forall.mp open'
    obtain ⟨above, incomplete⟩ := Classical.not_imp.mp notClosed
    obtain ⟨member, bound⟩ := inNetwork_iff_mem.mp inside
    have node : InNetwork size gap := inNetwork_iff_mem.mpr
      ⟨above.mem member, Nat.lt_of_le_of_lt (rank_le_of_above member above) bound⟩
    rw [result] at placed
    exact State.right_acquireReadWrite orderly inside low nonempty above incomplete
      (placed.right gap node incomplete)

/-- On three localities the acquires of the first two are recorded as they should be. -/
theorem placed_run_three :
    System.Always (State.Placed 3)
      [((State.initial.acquireReadWrite 3 ⟨0, 0⟩ {0} : State Nat Unit),
          ((⟨1, 0⟩, {0}) : HierarchyAddress × Finset Nat)), (State.initial, (⟨0, 0⟩, {0}))]
      ((State.initial.acquireReadWrite 3 ⟨0, 0⟩ {0}).acquireReadWrite 3 ⟨1, 0⟩ {0}) := by
  refine (placed_run_iff (run_acquires _ _ (run_acquires _ _ .start ?_ ?_) ?_ ?_)).mpr ?_
  · decide
  · decide
  · decide
  · decide
  · simp only [System.Meets, List.forall_mem_cons]
    refine ⟨Or.inr (closed_of_iterate ?_ ?_), Or.inr (closed_of_iterate ?_ ?_), by simp⟩
    · decide
    · decide
    · decide
    · decide

/-- On three localities the acquire of the third is recorded for a right child that is missing. -/
theorem not_placed :
    ¬ ∀ (size : Nat) (history : List (State Nat Unit × HierarchyAddress × Finset Nat))
    (s : State Nat Unit), (acquires Nat Unit size).Run history s → s.Placed size := by
  intro claim
  have run := @run_acquires Nat Unit 3 _ _ _ ⟨2, 0⟩ {0} .start (by decide) (by decide)
  have right := (claim 3 _ _ run).right ⟨2, 1⟩ (by decide) (by decide)
  exact absurd right (by decide)

end AllScale
