import AllScale.Lib.TokenDispatch
import AllScale.DataItemManager.Acquire

/-!
# The index seen from one element

An element is a token and the index entries are its grid. On a network of `2 ^ k` nodes every
operation of the data item manager moves each element of its region exactly as the token
library does, and leaves all other elements alone: collecting withdraws, `acquireOwnershipFor`
claims, an acquire takes and a write task dispatches. What the library proves about one token
holds of every element of every region that way.
-/

namespace AllScale

open TokenTree HierarchyAddress
open Function (update)

variable {α V : Type} {k : Nat}

/-! ## Services of a network of a power of two -/

namespace IndexService

/-- A node is a leaf when its layer is zero. -/
theorem isLeaf_iff {n : HierarchyAddress} : n.isLeaf = true ↔ (overlay k).layer n = 0 := beq_iff_eq

/-- A node that is not a leaf has a layer other than zero. -/
theorem isLeaf_false_iff {n : HierarchyAddress} :
    n.isLeaf = false ↔ (overlay k).layer n ≠ 0 := beq_eq_false_iff_ne

/-- A service is the root's when its address is. -/
theorem isRoot_create {n : HierarchyAddress} :
    (create (2 ^ k) n).isRoot = true ↔ n = (overlay k).root := beq_iff_eq

/-- The left child of an inner node. -/
theorem left_create {n : HierarchyAddress} (inner : (overlay k).layer n ≠ 0) :
    (create (2 ^ k) n).left = (overlay k).child .left n := by
  rw [create, if_neg (by simpa using isLeaf_false_iff.mpr inner)]
  rfl

/-- Every inner node has a right child of its own. -/
theorem right_create {n : HierarchyAddress} (member : (overlay k).Mem n)
    (inner : (overlay k).layer n ≠ 0) :
    (create (2 ^ k) n).right = (overlay k).child .right n := by
  have bound : n.getRightChild.rank < 2 ^ k := ((overlay k).child_mem .right member inner).1
  have virtual : ¬ n.isLeaf = true := by simpa using isLeaf_false_iff.mpr inner
  simp only [create, if_neg virtual, if_neg (Nat.not_le.mpr bound)]
  rfl

end IndexService

variable [DecidableEq α]

namespace State

/-- The cells of one element. -/
def grid (x : α) (s : State α V) : Grid HierarchyAddress := fun addr => (s.index addr).cell x

@[simp] theorem grid_apply (x : α) (s : State α V) (addr : HierarchyAddress) :
    s.grid x addr = (s.index addr).cell x := rfl

@[simp] theorem grid_setEntry (x : α) (s : State α V) (addr : HierarchyAddress)
    (entry : IndexEntry α) :
    (s.setEntry addr entry).grid x = update (s.grid x) addr (entry.cell x) := by
  funext n
  by_cases h : n = addr
  · subst h
    simp [grid]
  · simp [grid, h]

@[simp] theorem grid_setItem (x : α) (s : State α V) (rank : Nat) (item : DataItem α V) :
    (s.setItem rank item).grid x = s.grid x := rfl

/-- An entry whose cell is unchanged leaves the grid unchanged. -/
theorem grid_setEntry_same {x : α} {s : State α V} {addr : HierarchyAddress}
    {entry : IndexEntry α} (same : entry.cell x = (s.index addr).cell x) :
    (s.setEntry addr entry).grid x = s.grid x := by
  rw [grid_setEntry, same]
  exact Function.update_eq_self addr (s.grid x)

/-! ## Collecting and claiming -/

/-- Collecting withdraws every missing element. -/
theorem grid_collectChildOwnerships (x : α) (layer : Nat) (s : State α V)
    (here : HierarchyAddress) (missing : Finset α) (member : (overlay k).Mem here)
    (height : (overlay k).layer here = layer) :
    (s.collectChildOwnerships (2 ^ k) layer here missing).2.grid x =
      if x ∈ missing then (overlay k).withdraw layer (s.grid x) here else s.grid x := by
  induction layer generalizing s here missing with
  | zero =>
    have state : (s.collectChildOwnerships (2 ^ k) 0 here missing).2.grid x =
        update (s.grid x) here (((s.index here).collectAtLeaf missing).cell x) := by
      rw [← grid_setEntry]
      simp only [collectChildOwnerships]
      split <;> rfl
    rw [state, IndexEntry.cell_collectAtLeaf]
    by_cases inside : x ∈ missing
    · simp [inside, LayeredTree.withdraw]
    · simp [inside, ← grid_apply]
  | succ layer ih =>
    have inner : (overlay k).layer here ≠ 0 := by omega
    have below (side : Side) := (overlay k).layer_child side member inner
    -- a call that is skipped for an empty region would not touch any element
    have call (side : Side) (s : State α V) (region : Finset α) :
        (if region = ∅ then (LocationInfo.empty, s)
          else s.collectChildOwnerships (2 ^ k) layer ((overlay k).child side here)
            region).2.grid x =
          if x ∈ region then (overlay k).withdraw layer (s.grid x) ((overlay k).child side here)
          else s.grid x := by
      by_cases nothing : region = ∅
      · simp [nothing]
      · rw [if_neg nothing]
        have := below side
        exact ih s _ region ((overlay k).child_mem side member inner) (by omega)
    simp only [collectChildOwnerships, IndexService.right_create member inner,
      IndexService.left_create inner, call, grid_setEntry]
    by_cases inside : x ∈ missing
    · rw [if_pos inside, LayeredTree.withdraw, grid_apply]
      cases left : ((s.index here).cell x).left with
      | true =>
        obtain ⟨cell, collected, spared⟩ :=
          IndexEntry.cell_collectChildOwnerships_of_left inside left
        rw [if_pos collected, if_neg spared, cell]
        rfl
      | false =>
        cases right : ((s.index here).cell x).right with
        | true =>
          obtain ⟨cell, spared, collected⟩ :=
            IndexEntry.cell_collectChildOwnerships_of_right inside left right
          rw [if_neg spared, if_pos collected, cell]
          rfl
        | false =>
          obtain ⟨cell, spared, spared'⟩ :=
            IndexEntry.cell_collectChildOwnerships_of_free missing left right
          rw [if_neg spared, if_neg spared', cell]
          exact Function.update_eq_self here (s.grid x)
    · obtain ⟨cell, spared, spared'⟩ :=
        IndexEntry.cell_collectChildOwnerships_of_notMem (s.index here) inside
      rw [if_neg spared, if_neg spared', if_neg inside, cell]
      exact Function.update_eq_self here (s.grid x)

/-- The child that is collected from is the one on the other side. -/
theorem newChild_eq (side : Side) {here : HierarchyAddress} (member : (overlay k).Mem here)
    (inner : (overlay k).layer here ≠ 0) :
    (if (overlay k).child side here == (IndexService.create (2 ^ k) here).right
      then (IndexService.create (2 ^ k) here).left
      else (IndexService.create (2 ^ k) here).right) = (overlay k).child side.other here := by
  rw [IndexService.left_create inner, IndexService.right_create member inner]
  cases side with
  | left =>
    have different : (overlay k).child .left here ≠ (overlay k).child .right here := fun h =>
      absurd ((overlay k).child_injective member inner h) (by decide)
    rw [beq_false_of_ne different]
    rfl
  | right =>
    rw [beq_self_eq_true]
    rfl

/-- A child is compared with the right one by its side. -/
theorem beq_right_eq (side : Side) {here : HierarchyAddress} (member : (overlay k).Mem here)
    (inner : (overlay k).layer here ≠ 0) :
    ((overlay k).child side here == (IndexService.create (2 ^ k) here).right) =
      (side == .right) := by
  rw [IndexService.right_create member inner]
  cases side with
  | left =>
    exact beq_false_of_ne fun h => absurd ((overlay k).child_injective member inner h) (by decide)
  | right => exact beq_self_eq_true _

/-- Collecting from a region that may be empty. -/
theorem grid_collect_ite (x : α) (s : State α V) (child : HierarchyAddress) (region : Finset α)
    (member : (overlay k).Mem child) :
    (if region = ∅ then (LocationInfo.empty, s)
      else s.collectChildOwnerships (2 ^ k) child.layer child region).2.grid x =
      if x ∈ region then (overlay k).withdraw ((overlay k).layer child) (s.grid x) child
      else s.grid x := by
  by_cases empty : region = ∅
  · simp [empty]
  · rw [if_neg empty]
    exact grid_collectChildOwnerships x _ s child region member rfl

/-- One node acquires ownership for a child the way a claim passes it, when asking the parent
does to the element what the rest of the claim (`above`) does. -/
theorem grid_acquireOwnershipAt {x : α} {height : Nat} {s : State α V} {here : HierarchyAddress}
    {side : Side} {missing : Finset α} (above : Grid HierarchyAddress → Grid HierarchyAddress)
    {ask : State α V → HierarchyAddress → HierarchyAddress → Finset α →
      LocationInfo α × State α V}
    (member : (overlay k).Mem here) (inner : (overlay k).layer here ≠ 0)
    (asked : ∀ s region, here ≠ (overlay k).root →
      (ask s here.getParent here region).2.grid x =
        if x ∈ region then above (s.grid x) else s.grid x)
    (passes : ∀ g : Grid HierarchyAddress, (g here).on side.other = false →
      (overlay k).claim height g here side =
        if here = (overlay k).root then
          update g here { (g here).setOn side true with held := false }
        else above (update g here { (g here).setOn side true with held := false })) :
    (s.acquireOwnershipAt (2 ^ k) ask here ((overlay k).child side here) missing).2.grid x =
      if x ∈ missing then (overlay k).claim height (s.grid x) here side else s.grid x := by
  have upper (s : State α V) (region : Finset α) :
      (if region = ∅ ∨ (IndexService.create (2 ^ k) here).isRoot = true
        then (LocationInfo.empty, s)
        else ask s (IndexService.create (2 ^ k) here).parent here region).2.grid x =
        if x ∈ region ∧ here ≠ (overlay k).root then above (s.grid x) else s.grid x := by
    by_cases skip : region = ∅ ∨ (IndexService.create (2 ^ k) here).isRoot = true
    · rw [if_pos skip, if_neg]
      rintro ⟨found, notRoot⟩
      rcases skip with none | isRoot
      · exact absurd found (none ▸ Finset.notMem_empty x)
      · exact notRoot (IndexService.isRoot_create.mp isRoot)
    · have notRoot : here ≠ (overlay k).root := fun h =>
        skip (Or.inr (IndexService.isRoot_create.mpr h))
      rw [if_neg skip]
      simp only [ne_eq, notRoot, not_false_eq_true, and_true]
      exact asked s region notRoot
  simp only [acquireOwnershipAt, newChild_eq side member inner]
  rw [grid_collect_ite x _ _ _ ((overlay k).child_mem side.other member inner), upper,
    grid_setEntry]
  have place := beq_right_eq side member inner
  by_cases inside : x ∈ missing
  · rw [if_pos inside]
    cases taken : (s.grid x here).on side.other with
    | true =>
      obtain ⟨cell, spared, collected⟩ :=
        IndexEntry.cell_acquireOwnershipFor_of_taken inside place taken
      rw [if_pos collected, if_neg (fun h => spared h.1), cell, LayeredTree.claim_of_taken taken]
      rfl
    | false =>
      obtain ⟨cell, remains, spared⟩ :=
        IndexEntry.cell_acquireOwnershipFor_of_free inside place taken
      rw [if_neg spared, cell, passes _ taken]
      by_cases isRoot : here = (overlay k).root
      · rw [if_pos isRoot, if_neg (fun h => h.2 isRoot)]
        rfl
      · rw [if_neg isRoot, if_pos ⟨remains, isRoot⟩]
        rfl
  · obtain ⟨cell, spared, spared'⟩ :=
      IndexEntry.cell_acquireOwnershipFor_of_notMem
        (IndexService.create (2 ^ k) here) ((overlay k).child side here) (s.index here) inside
    rw [if_neg spared', if_neg (fun h => spared h.1), if_neg inside, cell]
    exact Function.update_eq_self here (s.grid x)

/-- Acquiring ownership for a child claims every missing element from the side of that child. -/
theorem grid_acquireOwnershipFor (x : α) (height : Nat) (s : State α V) (here : HierarchyAddress)
    (side : Side) (missing : Finset α) (member : (overlay k).Mem here)
    (inner : (overlay k).layer here ≠ 0) :
    (s.acquireOwnershipFor (2 ^ k) height here ((overlay k).child side here) missing).2.grid x =
      if x ∈ missing then (overlay k).claim height (s.grid x) here side else s.grid x := by
  induction height generalizing s here side missing with
  | zero =>
    exact grid_acquireOwnershipAt id member inner (fun s region _ => by simp)
      (fun g free => by simp [LayeredTree.claim, free])
  | succ height ih =>
    refine grid_acquireOwnershipAt
      (fun g => (overlay k).claim height g here.getParent here.getSide) member inner
      (fun s region notRoot => ?_) (fun g free => ?_)
    · have up := ih s here.getParent here.getSide region ((overlay k).parent_mem member notRoot)
        ((overlay k).layer_parent_ne_zero member notRoot)
      rwa [show (overlay k).child here.getSide here.getParent = here from
        (overlay k).child_side member notRoot] at up
    · rw [LayeredTree.claim]
      simp only [free, Bool.false_eq_true, ↓reduceIte]
      rfl

/-- Acquiring ownership at a leaf that does not have the missing region takes it. -/
theorem grid_acquireOwnership (x : α) (s : State α V) (leaf : HierarchyAddress)
    (missing : Finset α) (member : (overlay k).Mem leaf) (absent : x ∈ missing →
      x ∉ (s.index leaf).full) :
    (s.acquireOwnership (2 ^ k) leaf missing).2.grid x =
      if x ∈ missing then (overlay k).take (s.grid x) leaf else s.grid x := by
  simp only [acquireOwnership]
  by_cases isRoot : leaf = (overlay k).root
  · rw [if_pos (IndexService.isRoot_create.mpr isRoot), grid_setEntry,
      IndexEntry.cell_acquireOwnership]
    by_cases inside : x ∈ missing
    · simp [inside, LayeredTree.take, isRoot ▸ absent inside, isRoot]
    · simp [inside, ← grid_apply]
  · have place := (overlay k).child_side member isRoot
    rw [if_neg (fun h => isRoot (IndexService.isRoot_create.mp h))]
    have asked := grid_acquireOwnershipFor x
      ((getRootOfNetworkSize (2 ^ k)).layer - leaf.getParent.layer)
      (s.setEntry leaf ((s.index leaf).acquireOwnership missing)) leaf.getParent leaf.getSide
      missing ((overlay k).parent_mem member isRoot)
      ((overlay k).layer_parent_ne_zero member isRoot)
    rw [show (overlay k).child leaf.getSide leaf.getParent = leaf from place] at asked
    refine asked.trans ?_
    rw [grid_setEntry, IndexEntry.cell_acquireOwnership]
    by_cases inside : x ∈ missing
    · simp only [inside, ↓reduceIte]
      have free : (s.grid x leaf).held = false := by simpa using absent inside
      rw [LayeredTree.take, free]
      simp [isRoot]
      rfl
    · simp [inside, ← grid_apply]

/-! ## Acquiring -/

/-- Transfers do not touch the index. -/
@[simp] theorem index_transfers (s : State α V) (target : Nat) (migrate : Bool)
    (parts : List (Nat × Finset α)) : (s.transfers target migrate parts).index = s.index := by
  induction parts generalizing s with
  | nil => rfl
  | cons part rest ih =>
    rw [transfers, List.foldl_cons]
    refine (ih _).trans ?_
    split <;> rfl

@[simp] theorem grid_transfers (x : α) (s : State α V) (target : Nat) (migrate : Bool)
    (parts : List (Nat × Finset α)) : (s.transfers target migrate parts).grid x = s.grid x := by
  funext addr
  simp [grid]

@[simp] theorem grid_updateCaches (x : α) (size : Nat) (s : State α V) (missing : Finset α)
    (newRank : Nat) : (s.updateCaches size missing newRank).grid x = s.grid x := by
  funext addr
  simp only [grid, updateCaches]
  split <;> rfl

@[simp] theorem grid_resizeFragment (x : α) (s : State α V) (rank : Nat) (region : Finset α)
    (exclusive : Bool) : (s.resizeFragment rank region exclusive).grid x = s.grid x := rfl

/-- A read-write acquire takes every element of its region, in every network in which the ownership
of the region is acquired as in the overlay. -/
theorem grid_acquireReadWrite_of {size : Nat} (x : α) {s : State α V} {leaf : HierarchyAddress}
    {region : Finset α} (member : (overlay k).Mem leaf) (agrees :
      (s.updateCaches size (region \ (s.index leaf).full) leaf.rank).acquireOwnership size leaf
          (region \ (s.index leaf).full) =
        (s.updateCaches size (region \ (s.index leaf).full) leaf.rank).acquireOwnership (2 ^ k) leaf
          (region \ (s.index leaf).full)) :
    (s.acquireReadWrite size leaf region).grid x =
      if x ∈ region then (overlay k).take (s.grid x) leaf else s.grid x := by
  have here : ((s.updateCaches size (region \ (s.index leaf).full) leaf.rank).index leaf).full =
      (s.index leaf).full := by
    simp only [updateCaches]
    split <;> rfl
  have held : x ∈ (s.index leaf).full → (overlay k).take (s.grid x) leaf = s.grid x := by
    intro full
    simp [LayeredTree.take, full]
  rw [acquireReadWrite]
  by_cases empty : region \ (s.index leaf).full = ∅
  · rw [if_neg (by simpa using empty)]
    split
    · rename_i inside
      exact (held (Finset.sdiff_eq_empty_iff_subset.mp empty inside)).symm
    · rfl
  · rw [if_pos empty]
    simp only [grid_transfers, agrees]
    rw [grid_acquireOwnership x _ leaf _ member (fun found => by
      rw [here]
      exact (Finset.mem_sdiff.mp found).2), grid_updateCaches]
    by_cases inside : x ∈ region
    · by_cases full : x ∈ (s.index leaf).full
      · rw [if_neg (by simp [full]), if_pos inside, held full]
      · rw [if_pos (Finset.mem_sdiff.mpr ⟨inside, full⟩), if_pos inside]
    · rw [if_neg (by simp [inside]), if_neg inside]

/-- A read-write acquire takes every element of its region. -/
theorem grid_acquireReadWrite (x : α) (s : State α V) (leaf : HierarchyAddress)
    (region : Finset α) (member : (overlay k).Mem leaf) :
    (s.acquireReadWrite (2 ^ k) leaf region).grid x =
      if x ∈ region then (overlay k).take (s.grid x) leaf else s.grid x :=
  grid_acquireReadWrite_of x member rfl

/-! ## Work items -/

/-- The child a requirement is handed to. -/
theorem child_create (side : Side) {addr : HierarchyAddress} (member : (overlay k).Mem addr)
    (inner : (overlay k).layer addr ≠ 0) :
    (IndexService.create (2 ^ k) addr).child side = (overlay k).child side addr := by
  cases side with
  | left => exact IndexService.left_create inner
  | right => exact IndexService.right_create member inner

/-- What has arrived at the end of a path when an allowance was handed down it. -/
structure HandedDown (k : Nat) (path : List Side) (s : State α V) (addr : HierarchyAddress)
    (req : Requirement α) (result : State α V × HierarchyAddress × Requirement α) : Prop where
  /-- The node is the one the path leads to. -/
  address : result.2.1 = (overlay k).descend path addr
  /-- The required region is the same. -/
  region : result.2.2.region = req.region
  /-- The kind of access is the same. -/
  mode : result.2.2.mode = req.mode
  /-- The allowance is part of the required region. -/
  allowance : result.2.2.allowance ⊆ req.region
  /-- A required element has been passed down. -/
  passed : ∀ x ∈ req.region, (result.1.grid x, decide (x ∈ result.2.2.allowance)) =
    (overlay k).passDown path (s.grid x) addr (decide (x ∈ req.allowance))
  /-- Other elements have not been touched. -/
  others : ∀ x, x ∉ req.region → result.1.grid x = s.grid x
  /-- The stored data has not been touched. -/
  items : result.1.items = s.items
  /-- The caches have not been touched. -/
  caches : SameCaches s result.1

/-- Handing a requirement down passes every required element down. -/
theorem scheduleDown_spec (path : List Side) (s : State α V) (addr : HierarchyAddress)
    (req : Requirement α) (write : req.mode = .readWrite) (allowed : req.allowance ⊆ req.region)
    (member : (overlay k).Mem addr) (fits : path.length ≤ (overlay k).layer addr) :
    HandedDown k path s addr req (scheduleDown (2 ^ k) path s addr req) := by
  induction path generalizing s addr req with
  | nil => exact ⟨rfl, rfl, rfl, allowed, fun _ _ => rfl, fun _ _ => rfl, rfl, fun _ => rfl⟩
  | cons side path ih =>
    obtain ⟨inner, child, rest⟩ := LayeredTree.step_down member fits
    have result : s.addAllowanceSide side addr req =
        (s.setEntry addr ((s.index addr).addSide side req.allowance req.region).1,
          { req with allowance := ((s.index addr).addSide side req.allowance req.region).2 }) := by
      simp only [addAllowanceSide, write]
    have down := ih (s.setEntry addr ((s.index addr).addSide side req.allowance req.region).1)
      ((overlay k).child side addr)
      { req with allowance := ((s.index addr).addSide side req.allowance req.region).2 } write
      IndexEntry.addSide_subset child rest
    rw [scheduleDown, result, child_create side member inner]
    refine ⟨down.address, down.region, down.mode, down.allowance, fun x inside => ?_,
      fun x outside => ?_, down.items,
      (SameCaches.setEntry (IndexEntry.cache_addSide side _ _ _)).trans down.caches⟩
    · have granted := IndexEntry.cell_addSide side (s.index addr) req.allowance inside
      rw [down.passed x inside, LayeredTree.passDown, granted.2, grid_setEntry, granted.1]
      rfl
    · have spared := IndexEntry.cell_addSide_of_notMem side (s.index addr) outside
        (fun found => outside (allowed found))
      rw [down.others x outside]
      exact grid_setEntry_same spared.1

/-- Where a requirement arrives, its allowance is kept. -/
theorem grid_addAllowance (x : α) (s : State α V) (addr : HierarchyAddress) {req : Requirement α}
    (write : req.mode = .readWrite) :
    (s.addAllowance addr req).grid x =
      LayeredTree.keep (s.grid x) addr (decide (x ∈ req.allowance)) := by
  have merged := IndexEntry.cell_addFull (s.index addr) req.allowance x
  simp only [addAllowance, write]
  split <;> simp only [grid_resizeFragment, grid_setEntry, merged] <;> rfl

/-- Where a write task ends, before it acquires the rest of its region. -/
structure Allowed (k : Nat) (path : List Side) (s : State α V) (start : HierarchyAddress)
    (region : Finset α) (t : State α V) : Prop where
  /-- A required element has been handed down and kept at the end. -/
  kept : ∀ x ∈ region, t.grid x =
    let down := (overlay k).passDown path (s.grid x) start (decide (x ∈
      ((s.index start).getMissingRegion (IndexService.create (2 ^ k) start) region).1))
    LayeredTree.keep down.1 ((overlay k).descend path start) down.2
  /-- Other elements have not been touched. -/
  others : ∀ x, x ∉ region → t.grid x = s.grid x
  /-- The caches have not been touched. -/
  caches : SameCaches s t

/-- A write task hands its allowance down, and acquires the rest when it ends at a leaf. -/
theorem task_spec (s : State α V) (start : HierarchyAddress) (path : List Side)
    (region : Finset α) (member : (overlay k).Mem start)
    (fits : path.length ≤ (overlay k).layer start) :
    ∃ t, Allowed k path s start region t ∧
      s.task (2 ^ k) start path region =
        if ((overlay k).descend path start).isLeaf then
          t.acquireReadWrite (2 ^ k) ((overlay k).descend path start) region else t := by
  have down := scheduleDown_spec path s start
    (s.getMissingRegions (2 ^ k) start ⟨region, ∅, .readWrite⟩).2 rfl
    (IndexEntry.getMissingRegion_subset _ _ region) member fits
  simp only [task, scheduleLocal]
  generalize scheduleDown (2 ^ k) path s start _ = arrived at down ⊢
  obtain ⟨t, addr, req⟩ := arrived
  have address : addr = (overlay k).descend path start := down.address
  have mode : req.mode = .readWrite := down.mode
  have same : req.region = region := down.region
  subst address
  have kept (x : α) := grid_addAllowance x t ((overlay k).descend path start) mode
  refine ⟨t.addAllowance ((overlay k).descend path start) req, ⟨fun x inside => ?_,
    fun x outside => ?_, down.caches.trans fun addr => ?_⟩, by rw [same]⟩
  · obtain ⟨first, second⟩ := Prod.mk.inj (down.passed x inside)
    rw [kept, first, second]
    rfl
  · have barred : x ∉ req.allowance := fun found => outside (down.allowance found)
    rw [kept, LayeredTree.keep, down.others x outside]
    simp [barred, -grid_apply]
  · have entry := IndexEntry.cache_addFull (t.index ((overlay k).descend path start)) req.allowance
    simp only [addAllowance, mode]
    split
    · exact SameCaches.setEntry (s := t) entry addr
    · exact SameCaches.setEntry (s := t) entry addr

/-- A write task dispatches what it is allowed of every required element. -/
theorem grid_task (x : α) (s : State α V) (start : HierarchyAddress) (path : List Side)
    (region : Finset α) (member : (overlay k).Mem start)
    (fits : path.length ≤ (overlay k).layer start) :
    (s.task (2 ^ k) start path region).grid x =
      if x ∈ region then
        (overlay k).dispatch path (s.grid x) start
          (decide (x ∈ ((s.index start).getMissingRegion
            (IndexService.create (2 ^ k) start) region).1))
      else s.grid x := by
  obtain ⟨t, allowed, result⟩ := task_spec s start path region member fits
  obtain ⟨node, -, -⟩ := (overlay k).descend_spec path member fits
  rw [result]
  have low : ((overlay k).descend path start).isLeaf = true ↔
      (overlay k).layer ((overlay k).descend path start) = 0 := IndexService.isLeaf_iff
  by_cases inside : x ∈ region
  · have kept := allowed.kept x inside
    rw [if_pos inside, LayeredTree.dispatch, ← kept]
    by_cases leaf : (overlay k).layer ((overlay k).descend path start) = 0
    · rw [if_pos (low.mpr leaf), if_pos leaf, grid_acquireReadWrite x t _ region node,
        if_pos inside]
    · rw [if_neg (fun h => leaf (low.mp h)), if_neg leaf]
  · rw [if_neg inside, ← allowed.others x inside]
    split
    · rw [grid_acquireReadWrite x t _ region node, if_neg inside]
    · rfl

end State

end AllScale
