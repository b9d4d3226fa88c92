import AllScale.Hierarchy
import AllScale.Lib.Token
import AllScale.DataItemManager.LocationInfo

/-!
# Index entries

`index_entry` records for one data item what one virtual node manages. Its operations appear
here as the code between taking and releasing the entry's lock; the calls to other nodes that
follow are in `IndexService`. Seen from one element an entry is a token cell (`cell`), and every
locked section is one of the cell updates of the token library.
-/

namespace AllScale

open TokenTree

/-- `access_mode`, without the marker of an uninitialized requirement. -/
inductive AccessMode where
  | readOnly
  | readWrite
  deriving DecidableEq, Repr

/-- `data_item_requirement` for the one data item of the model. -/
structure Requirement (α : Type) where
  /-- The required region. -/
  region : Finset α
  /-- The part of the region that the requirement may be given on its way down. -/
  allowance : Finset α
  /-- The kind of access. -/
  mode : AccessMode

/-- The addresses an `index_service` is constructed with. -/
structure IndexService where
  /-- The address of the node itself. -/
  here : HierarchyAddress
  /-- The address of its parent. -/
  parent : HierarchyAddress
  /-- The address of its left child. -/
  left : HierarchyAddress
  /-- The address of its right child, or of the left one when there is no right child. -/
  right : HierarchyAddress
  /-- The node is the root of the network. -/
  isRoot : Bool

/-- The constructor of `index_service` in a network of `size` localities; the locality ids that
tell whether a call is remote are left out. Without a right child `right_` is the address of the
left one, as in the source, and `right_id_` is invalid there. -/
def IndexService.create (size : Nat) (here : HierarchyAddress) : IndexService where
  here := here
  parent := here.getParent
  left := if here.isLeaf then ⟨0, 0⟩ else here.getLeftChild
  right :=
    if here.isLeaf then ⟨0, 0⟩
    else if here.getRightChild.rank ≥ size then here.getLeftChild
    else here.getRightChild
  isRoot := here == HierarchyAddress.getRootOfNetworkSize size

/-- `left_` or `right_`. The address of a right child that does not exist is that of the left one; a
collect that the source sends to its invalid id, past an assertion, reaches the left one here. -/
def IndexService.child (service : IndexService) : Side → HierarchyAddress
  | .left => service.left
  | .right => service.right

/-- `index_entry` — what a node manages of one data item. -/
structure IndexEntry (α : Type) where
  /-- `full_` — the managed region. -/
  full : Finset α
  /-- `right_` — the region on record for the right child. -/
  right : Finset α
  /-- `left_` — the region on record for the left child. -/
  left : Finset α
  /-- `location_cache_` — owners found by earlier lookups. -/
  locationCache : LocationInfo α

namespace IndexEntry

variable {α : Type} [DecidableEq α]

/-- A new entry. -/
def empty : IndexEntry α := ⟨∅, ∅, ∅, .empty⟩

/-- `index_entry::get_managed_unallocated`. -/
def getManagedUnallocated (service : IndexService) (entry : IndexEntry α) (region : Finset α) :
    Finset α :=
  if service.here.isLeaf then ∅
  else region ∩ (entry.full \ (entry.left ∪ entry.right))

/-- `index_entry::get_missing_region` — the region and the flag `unallocated`. -/
def getMissingRegion (service : IndexService) (entry : IndexEntry α) (region : Finset α) :
    Finset α × Bool :=
  if region = ∅ then (∅, false)
  else
    let managedUnallocated := entry.getManagedUnallocated service region
    if managedUnallocated ≠ ∅ then (managedUnallocated, true) else (region \ entry.full, false)

/-- `index_entry::add_full`. -/
def addFull (entry : IndexEntry α) (region : Finset α) : IndexEntry α :=
  if region = ∅ then entry else { entry with full := entry.full ∪ region }

/-- `index_entry::add_left` — the entry and the part handed to the left child. -/
def addLeft (entry : IndexEntry α) (region required : Finset α) : IndexEntry α × Finset α :=
  let entry := { entry with full := entry.full ∪ region }
  let missing := required \ entry.left
  if missing = ∅ then (entry, ∅)
  else
    let missing := (missing ∩ entry.full) \ entry.right
    ({ entry with left := entry.left ∪ missing }, missing)

/-- `index_entry::add_right` — the entry and the part handed to the right child. -/
def addRight (entry : IndexEntry α) (region required : Finset α) : IndexEntry α × Finset α :=
  let entry := { entry with full := entry.full ∪ region }
  let missing := required \ entry.right
  if missing = ∅ then (entry, ∅)
  else
    let missing := (missing ∩ entry.full) \ entry.left
    ({ entry with right := entry.right ∪ missing }, missing)

/-- `add_left` or `add_right`. -/
def addSide (side : Side) (entry : IndexEntry α) (region required : Finset α) :
    IndexEntry α × Finset α :=
  match side with
  | .left => entry.addLeft region required
  | .right => entry.addRight region required

/-- The locked section of `index_entry::acquire_ownership`. -/
def acquireOwnership (entry : IndexEntry α) (missing : Finset α) : IndexEntry α :=
  { entry with full := entry.full ∪ missing }

/-- What the locked section of `acquire_ownership_for` leaves behind. -/
structure Claimed (α : Type) where
  /-- The updated entry. -/
  entry : IndexEntry α
  /-- What is still missing and goes on to the parent. -/
  missing : Finset α
  /-- What has to be collected from the other child. -/
  part : Finset α

/-- The locked section of `index_entry::acquire_ownership_for`. -/
def acquireOwnershipFor (service : IndexService) (entry : IndexEntry α)
    (child : HierarchyAddress) (missing : Finset α) : Claimed α :=
  let collectLeft := child == service.right
  let part := if collectLeft then missing ∩ entry.left else missing ∩ entry.right
  let entry :=
    if collectLeft then { entry with right := entry.right ∪ missing }
    else { entry with left := entry.left ∪ missing }
  let remaining := if part ≠ ∅ then missing \ part else missing
  let entry :=
    if part ≠ ∅ then
      let entry := { entry with left := entry.left \ part, right := entry.right \ part }
      if collectLeft then { entry with right := entry.right ∪ part }
      else { entry with left := entry.left ∪ part }
    else entry
  let entry := if remaining ≠ ∅ then { entry with full := entry.full \ remaining } else entry
  ⟨entry, remaining, part⟩

/-- What the locked section of `collect_child_ownerships` at an inner node leaves behind. -/
structure Collected (α : Type) where
  /-- The updated entry. -/
  entry : IndexEntry α
  /-- `remote_regions[0]` — what has to be collected from the left child. -/
  left : Finset α
  /-- `remote_regions[1]` — what has to be collected from the right child. -/
  right : Finset α

/-- The locked section of `index_entry::collect_child_ownerships` at a leaf. -/
def collectAtLeaf (entry : IndexEntry α) (missing : Finset α) : IndexEntry α :=
  { entry with full := entry.full \ missing }

/-- The locked section of `index_entry::collect_child_ownerships` at an inner node. -/
def collectChildOwnerships (entry : IndexEntry α) (missing : Finset α) : Collected α :=
  let left := missing ∩ entry.left
  let entry :=
    if left ≠ ∅ then { entry with left := entry.left \ left, full := entry.full \ left }
    else entry
  let missing := if left ≠ ∅ then missing \ left else missing
  if missing ≠ ∅ then
    let right := missing ∩ entry.right
    let entry :=
      if right ≠ ∅ then { entry with right := entry.right \ right, full := entry.full \ right }
      else entry
    ⟨entry, left, right⟩
  else ⟨entry, left, ∅⟩

/-- `index_entry::update_cache`. -/
def updateCache (entry : IndexEntry α) (missing : Finset α) (newRank : Nat) : IndexEntry α :=
  { entry with locationCache := entry.locationCache.update newRank missing }

/-- What the locked section of `locate` has found and where the rest is looked up. -/
structure Located (α : Type) where
  /-- The owners found in the entry. -/
  info : LocationInfo α
  /-- `remote_regions[0]` — what the parent is asked for. -/
  parent : Finset α
  /-- `remote_regions[1]` — what the left child is asked for. -/
  left : Finset α
  /-- `remote_regions[2]` — what the right child is asked for. -/
  right : Finset α

/-- The loop of `locate` over the cached owners, which ends when nothing remains. -/
def lookupCache : List (Nat × Finset α) → LocationInfo α → Finset α → LocationInfo α × Finset α
  | [], info, remaining => (info, remaining)
  | cached :: rest, info, remaining =>
    let part := remaining ∩ cached.2
    if part ≠ ∅ then
      let info := info.addPart cached.1 part
      let remaining := remaining \ part
      if remaining = ∅ then (info, remaining) else lookupCache rest info remaining
    else lookupCache rest info remaining

/-- The locked section of `index_entry::locate`. Where it returns early nothing remains to be
looked up elsewhere. -/
def locate (service : IndexService) (entry : IndexEntry α) (region : Finset α) : Located α :=
  let part := if service.here.isLeaf then region ∩ entry.full else ∅
  let remaining := region \ part
  let info := if part ≠ ∅ then LocationInfo.empty.addPart service.here.rank part else .empty
  if part ≠ ∅ ∧ remaining = ∅ then ⟨info, ∅, ∅, ∅⟩
  else
    let cached := lookupCache entry.locationCache.regions info remaining
    let remaining := cached.2
    let right := if service.here.isLeaf then ∅ else remaining ∩ entry.right
    let remaining := remaining \ right
    let left := if service.here.isLeaf ∨ remaining = ∅ then ∅ else remaining ∩ entry.left
    let remaining := remaining \ left
    let parent := if service.isRoot ∨ remaining = ∅ then ∅ else remaining
    ⟨cached.1, parent, left, right⟩

/-- The record of an entry for one side. -/
def record (entry : IndexEntry α) : Side → Finset α
  | .left => entry.left
  | .right => entry.right

/-! ## Entries seen from one element -/

/-- What an entry knows about one element. -/
def cell (entry : IndexEntry α) (x : α) : Cell :=
  ⟨decide (x ∈ entry.full), decide (x ∈ entry.left), decide (x ∈ entry.right)⟩

@[simp] theorem held_cell (entry : IndexEntry α) (x : α) :
    (entry.cell x).held = decide (x ∈ entry.full) := rfl

@[simp] theorem left_cell (entry : IndexEntry α) (x : α) :
    (entry.cell x).left = decide (x ∈ entry.left) := rfl

@[simp] theorem right_cell (entry : IndexEntry α) (x : α) :
    (entry.cell x).right = decide (x ∈ entry.right) := rfl

/-- Whether an element is on record, seen from the element. -/
theorem mem_record {entry : IndexEntry α} {side : Side} {x : α} :
    x ∈ entry.record side ↔ (entry.cell x).on side = true := by
  cases side with
  | left => exact decide_eq_true_iff.symm
  | right => exact decide_eq_true_iff.symm

/-- A new entry has empty cells. -/
@[simp] theorem cell_empty (x : α) : (empty : IndexEntry α).cell x = ⟨false, false, false⟩ := by
  simp [cell, empty]

/-- The elements of the missing region are required. -/
theorem getMissingRegion_subset (service : IndexService) (entry : IndexEntry α)
    (region : Finset α) : (entry.getMissingRegion service region).1 ⊆ region := by
  rw [getMissingRegion]
  split
  · exact Finset.empty_subset region
  · rw [apply_ite Prod.fst]
    split
    · rw [getManagedUnallocated]
      split
      · exact Finset.empty_subset region
      · exact Finset.inter_subset_left
    · exact Finset.sdiff_subset

/-- A managed-but-unallocated element is one that an inner node has parked. -/
theorem mem_getManagedUnallocated {service : IndexService} {entry : IndexEntry α}
    {region : Finset α} {x : α} :
    x ∈ entry.getManagedUnallocated service region ↔
      service.here.isLeaf = false ∧ x ∈ region ∧ (entry.cell x).parked = true := by
  simp only [getManagedUnallocated, Cell.parked, held_cell, left_cell, right_cell]
  split
  · simp_all
  · simp_all [and_assoc]

/-- When the flag is raised the missing region is the managed-but-unallocated one. -/
theorem getMissingRegion_of_unallocated {service : IndexService} {entry : IndexEntry α}
    {region : Finset α} (unallocated : (entry.getMissingRegion service region).2 = true) :
    (entry.getMissingRegion service region).1 = entry.getManagedUnallocated service region := by
  simp only [getMissingRegion] at unallocated ⊢
  split at unallocated
  · simp at unallocated
  · rename_i some
    rw [if_neg some]
    split at unallocated
    · rename_i parked
      rw [if_pos parked]
    · simp at unallocated

/-- What is reported missing is parked at an inner node or not held by the node. -/
theorem cell_of_mem_getMissingRegion {service : IndexService} {entry : IndexEntry α}
    {region : Finset α} {x : α} (missing : x ∈ (entry.getMissingRegion service region).1) :
    service.here.isLeaf = false ∧ (entry.cell x).parked = true ∨ (entry.cell x).held = false := by
  cases flag : (entry.getMissingRegion service region).2 with
  | true =>
    rw [getMissingRegion_of_unallocated flag] at missing
    obtain ⟨virtual, -, parked⟩ := mem_getManagedUnallocated.mp missing
    exact Or.inl ⟨virtual, parked⟩
  | false =>
    rw [getMissingRegion] at missing flag
    split at missing
    · simp at missing
    · rename_i some
      rw [if_neg some, apply_ite Prod.snd] at flag
      rw [apply_ite Prod.fst] at missing
      split at flag
      · exact Bool.noConfusion flag
      · rename_i none
        rw [if_neg none] at missing
        exact Or.inr (by simpa using (Finset.mem_sdiff.mp missing).2)

/-- Merging an allowance into an entry. -/
theorem cell_addFull (entry : IndexEntry α) (region : Finset α) (x : α) :
    (entry.addFull region).cell x =
      { entry.cell x with held := (entry.cell x).held || decide (x ∈ region) } := by
  rw [addFull]
  split
  · rename_i none
    simp [none, cell]
  · simp [cell]

/-- Handing a required element on is a grant. -/
theorem cell_addSide (side : Side) (entry : IndexEntry α) (region : Finset α)
    {required : Finset α} {x : α}
    (inside : x ∈ required) :
    (entry.addSide side region required).1.cell x =
        (LayeredTree.grant (entry.cell x) side (decide (x ∈ region))).1 ∧
      decide (x ∈ (entry.addSide side region required).2) =
        (LayeredTree.grant (entry.cell x) side (decide (x ∈ region))).2 := by
  cases side with
  | left =>
    simp only [addSide, addLeft, LayeredTree.grant]
    split
    · rename_i none
      have recorded : x ∈ entry.left := Finset.sdiff_eq_empty_iff_subset.mp none inside
      simp [cell, Cell.on, Cell.setOn, recorded]
    · simp [cell, Cell.on, Cell.setOn, inside]
  | right =>
    simp only [addSide, addRight, LayeredTree.grant]
    split
    · rename_i none
      have recorded : x ∈ entry.right := Finset.sdiff_eq_empty_iff_subset.mp none inside
      simp [cell, Cell.on, Cell.setOn, recorded]
    · simp [cell, Cell.on, Cell.setOn, inside]

/-- Handing on does not touch an element that is neither required nor allowed. -/
theorem cell_addSide_of_notMem (side : Side) (entry : IndexEntry α) {region required : Finset α}
    {x : α} (outside : x ∉ required) (barred : x ∉ region) :
    (entry.addSide side region required).1.cell x = entry.cell x ∧
      x ∉ (entry.addSide side region required).2 := by
  cases side with
  | left =>
    simp only [addSide, addLeft]
    split <;> simp [cell, outside, barred]
  | right =>
    simp only [addSide, addRight]
    split <;> simp [cell, outside, barred]

/-- Handing on touches no cache. -/
theorem cache_addSide (side : Side) (entry : IndexEntry α) (region required : Finset α) :
    (entry.addSide side region required).1.locationCache = entry.locationCache := by
  cases side with
  | left =>
    simp only [addSide, addLeft]
    split <;> rfl
  | right =>
    simp only [addSide, addRight]
    split <;> rfl

/-- Merging an allowance touches no cache. -/
theorem cache_addFull (entry : IndexEntry α) (region : Finset α) :
    (entry.addFull region).locationCache = entry.locationCache := by
  rw [addFull]
  split <;> rfl

/-- What is handed on is required. -/
theorem addSide_subset {side : Side} {entry : IndexEntry α} {region required : Finset α} :
    (entry.addSide side region required).2 ⊆ required := by
  intro x handed
  by_contra outside
  cases side with
  | left =>
    simp only [addSide, addLeft] at handed
    split at handed <;> simp [outside] at handed
  | right =>
    simp only [addSide, addRight] at handed
    split at handed <;> simp [outside] at handed

/-- Taking ownership at a leaf. -/
theorem cell_acquireOwnership (entry : IndexEntry α) (missing : Finset α) (x : α) :
    (entry.acquireOwnership missing).cell x =
      { entry.cell x with held := (entry.cell x).held || decide (x ∈ missing) } := by
  have held : decide (x ∈ entry.full ∪ missing) =
      (decide (x ∈ entry.full) || decide (x ∈ missing)) := by simp
  exact congrArg (Cell.mk · _ _) held

section Claiming

variable {service : IndexService} {child : HierarchyAddress} {side : Side}
  {entry : IndexEntry α} {missing : Finset α} {x : α}

/-- A claim does not touch an element that is not missing. -/
theorem cell_acquireOwnershipFor_of_notMem (service : IndexService) (child : HierarchyAddress)
    (entry : IndexEntry α) (outside : x ∉ missing) :
    (entry.acquireOwnershipFor service child missing).entry.cell x = entry.cell x ∧
      x ∉ (entry.acquireOwnershipFor service child missing).missing ∧
      x ∉ (entry.acquireOwnershipFor service child missing).part := by
  simp only [acquireOwnershipFor]
  split <;> split <;> split <;> simp [cell, outside]

/-- A missing element on record for the other child is moved to the claiming child and has to be
collected there. -/
theorem cell_acquireOwnershipFor_of_taken (inside : x ∈ missing)
    (place : (child == service.right) = (side == .right))
    (taken : (entry.cell x).on side.other = true) :
    (entry.acquireOwnershipFor service child missing).entry.cell x =
        ((entry.cell x).setOn side true).setOn side.other false ∧
      x ∉ (entry.acquireOwnershipFor service child missing).missing ∧
      x ∈ (entry.acquireOwnershipFor service child missing).part := by
  cases side with
  | left =>
    have recorded : x ∈ entry.right := by simpa [Cell.on] using taken
    have collected : missing ∩ entry.right ≠ ∅ :=
      Finset.ne_empty_of_mem (Finset.mem_inter.mpr ⟨inside, recorded⟩)
    simp only [acquireOwnershipFor, place, beq_iff_eq, reduceCtorEq, if_pos collected,
      ↓reduceIte]
    refine ⟨?_, ?_, ?_⟩
    · split <;> simp [cell, Cell.setOn, inside, recorded]
    · simp [recorded]
    · simp [inside, recorded]
  | right =>
    have recorded : x ∈ entry.left := by simpa [Cell.on] using taken
    have collected : missing ∩ entry.left ≠ ∅ :=
      Finset.ne_empty_of_mem (Finset.mem_inter.mpr ⟨inside, recorded⟩)
    simp only [acquireOwnershipFor, place, beq_self_eq_true, if_pos collected, ↓reduceIte]
    refine ⟨?_, ?_, ?_⟩
    · split <;> simp [cell, Cell.setOn, inside, recorded]
    · simp [recorded]
    · simp [inside, recorded]

/-- A missing element not on record for the other child is recorded for the claiming child, given
up by the node itself and stays missing. -/
theorem cell_acquireOwnershipFor_of_free (inside : x ∈ missing)
    (place : (child == service.right) = (side == .right))
    (free : (entry.cell x).on side.other = false) :
    (entry.acquireOwnershipFor service child missing).entry.cell x =
        { (entry.cell x).setOn side true with held := false } ∧
      x ∈ (entry.acquireOwnershipFor service child missing).missing ∧
      x ∉ (entry.acquireOwnershipFor service child missing).part := by
  cases side with
  | left =>
    have unrecorded : x ∉ entry.right := by simpa [Cell.on] using free
    have remains : missing \ (missing ∩ entry.right) ≠ ∅ :=
      Finset.ne_empty_of_mem (a := x) (by simp [inside, unrecorded])
    have someMissing : missing ≠ ∅ := Finset.ne_empty_of_mem inside
    simp only [acquireOwnershipFor, place, beq_iff_eq, reduceCtorEq, ↓reduceIte]
    refine ⟨?_, ?_, ?_⟩
    · split <;> simp [cell, Cell.setOn, inside, unrecorded]
    · split <;> simp [inside, unrecorded]
    · simp [unrecorded]
  | right =>
    have unrecorded : x ∉ entry.left := by simpa [Cell.on] using free
    have remains : missing \ (missing ∩ entry.left) ≠ ∅ :=
      Finset.ne_empty_of_mem (a := x) (by simp [inside, unrecorded])
    have someMissing : missing ≠ ∅ := Finset.ne_empty_of_mem inside
    simp only [acquireOwnershipFor, place, beq_self_eq_true, ↓reduceIte]
    refine ⟨?_, ?_, ?_⟩
    · split <;> simp [cell, Cell.setOn, inside, unrecorded]
    · split <;> simp [inside, unrecorded]
    · simp [unrecorded]

/-- A claim counts as one of the right child, or else of the left one. -/
theorem exists_claimant (service : IndexService) (child : HierarchyAddress) :
    ∃ side : Side, (child == service.right) = (side == .right) := by
  cases child == service.right with
  | true => exact ⟨.right, rfl⟩
  | false => exact ⟨.left, rfl⟩

/-- What has to be collected from the other child is on record there. -/
theorem mem_part (place : (child == service.right) = (side == .right)) :
    x ∈ (entry.acquireOwnershipFor service child missing).part ↔
      x ∈ missing ∧ (entry.cell x).on side.other = true := by
  by_cases inside : x ∈ missing
  · cases taken : (entry.cell x).on side.other with
    | true => simp [inside, (cell_acquireOwnershipFor_of_taken inside place taken).2.2]
    | false => simp [(cell_acquireOwnershipFor_of_free inside place taken).2.2]
  · simp [inside, (cell_acquireOwnershipFor_of_notMem service child entry inside).2.2]

/-- What is still missing is not on record for the other child. -/
theorem mem_missing (place : (child == service.right) = (side == .right)) :
    x ∈ (entry.acquireOwnershipFor service child missing).missing ↔
      x ∈ missing ∧ (entry.cell x).on side.other = false := by
  by_cases inside : x ∈ missing
  · cases taken : (entry.cell x).on side.other with
    | true => simp [(cell_acquireOwnershipFor_of_taken inside place taken).2.1]
    | false => simp [inside, (cell_acquireOwnershipFor_of_free inside place taken).2.1]
  · simp [inside, (cell_acquireOwnershipFor_of_notMem service child entry inside).2.1]

/-- What a child claims is moved from the record of the other child to its own one. -/
theorem record_acquireOwnershipFor (place : (child == service.right) = (side == .right)) :
    (entry.acquireOwnershipFor service child missing).entry.record side =
        entry.record side ∪ missing ∧
      (entry.acquireOwnershipFor service child missing).entry.record side.other =
        entry.record side.other \ missing := by
  have step : ∀ x,
      (x ∈ (entry.acquireOwnershipFor service child missing).entry.record side ↔
        x ∈ entry.record side ∨ x ∈ missing) ∧
      (x ∈ (entry.acquireOwnershipFor service child missing).entry.record side.other ↔
        x ∈ entry.record side.other ∧ x ∉ missing) := by
    intro x
    simp only [mem_record]
    by_cases inside : x ∈ missing
    · cases taken : (entry.cell x).on side.other with
      | true =>
        rw [(cell_acquireOwnershipFor_of_taken inside place taken).1]
        simp [inside]
      | false =>
        rw [(cell_acquireOwnershipFor_of_free inside place taken).1]
        simp [inside, taken]
    · rw [(cell_acquireOwnershipFor_of_notMem service child entry inside).1]
      simp [inside]
  constructor
  · ext x
    rw [(step x).1, Finset.mem_union]
  · ext x
    rw [(step x).2, Finset.mem_sdiff]

end Claiming

section Collecting

variable {entry : IndexEntry α} {missing : Finset α} {x : α}

/-- Collecting does not touch an element that is not missing. -/
theorem cell_collectChildOwnerships_of_notMem (entry : IndexEntry α) (outside : x ∉ missing) :
    (entry.collectChildOwnerships missing).entry.cell x = entry.cell x ∧
      x ∉ (entry.collectChildOwnerships missing).left ∧
      x ∉ (entry.collectChildOwnerships missing).right := by
  simp only [collectChildOwnerships]
  split <;> split <;> (try split) <;> simp [cell, outside]

/-- A missing element on record for the left child is collected there. -/
theorem cell_collectChildOwnerships_of_left (inside : x ∈ missing)
    (recorded : (entry.cell x).left = true) :
    (entry.collectChildOwnerships missing).entry.cell x =
        { entry.cell x with held := false, left := false } ∧
      x ∈ (entry.collectChildOwnerships missing).left ∧
      x ∉ (entry.collectChildOwnerships missing).right := by
  have member : x ∈ entry.left := by simpa using recorded
  have collected : missing ∩ entry.left ≠ ∅ :=
    Finset.ne_empty_of_mem (Finset.mem_inter.mpr ⟨inside, member⟩)
  simp only [collectChildOwnerships, if_pos collected]
  split
  · split <;> simp [cell, inside, member]
  · simp [cell, inside, member]

/-- A missing element on record for the right child only is collected there. -/
theorem cell_collectChildOwnerships_of_right (inside : x ∈ missing)
    (free : (entry.cell x).left = false) (recorded : (entry.cell x).right = true) :
    (entry.collectChildOwnerships missing).entry.cell x =
        { entry.cell x with held := false, right := false } ∧
      x ∉ (entry.collectChildOwnerships missing).left ∧
      x ∈ (entry.collectChildOwnerships missing).right := by
  have member : x ∈ entry.right := by simpa using recorded
  have outside : x ∉ entry.left := by simpa using free
  have someMissing : missing ≠ ∅ := Finset.ne_empty_of_mem inside
  simp only [collectChildOwnerships]
  by_cases empty : missing ∩ entry.left = ∅
  · have collected : missing ∩ entry.right ≠ ∅ :=
      Finset.ne_empty_of_mem (Finset.mem_inter.mpr ⟨inside, member⟩)
    simp [empty, someMissing, collected, cell, inside, member]
  · have remains : missing \ (missing ∩ entry.left) ≠ ∅ :=
      Finset.ne_empty_of_mem (a := x) (by simp [inside, outside])
    have collected : missing \ (missing ∩ entry.left) ∩ entry.right ≠ ∅ :=
      Finset.ne_empty_of_mem (a := x) (by simp [inside, outside, member])
    simp only [ne_eq, empty, remains, collected, not_false_eq_true, ↓reduceIte]
    simp [cell, inside, outside, member]

/-- A missing element without a record stays where it is. -/
theorem cell_collectChildOwnerships_of_free (missing : Finset α)
    (free : (entry.cell x).left = false) (free' : (entry.cell x).right = false) :
    (entry.collectChildOwnerships missing).entry.cell x = entry.cell x ∧
      x ∉ (entry.collectChildOwnerships missing).left ∧
      x ∉ (entry.collectChildOwnerships missing).right := by
  have outside : x ∉ entry.left := by simpa using free
  have outside' : x ∉ entry.right := by simpa using free'
  simp only [collectChildOwnerships]
  split <;> split <;> (try split) <;> simp [cell, outside, outside']

/-- Collecting at a leaf. -/
theorem cell_collectAtLeaf (entry : IndexEntry α) (missing : Finset α) (x : α) :
    (entry.collectAtLeaf missing).cell x =
      { entry.cell x with held := (entry.cell x).held && !decide (x ∈ missing) } := by
  have held : decide (x ∈ entry.full \ missing) =
      (decide (x ∈ entry.full) && !decide (x ∈ missing)) := by simp
  exact congrArg (Cell.mk · _ _) held

/-- What is collected from the left child is on record there. -/
theorem mem_left_collect : x ∈ (entry.collectChildOwnerships missing).left ↔
    x ∈ missing ∧ (entry.cell x).left = true := by
  simp only [collectChildOwnerships, left_cell, decide_eq_true_eq]
  split <;> split <;> (try split) <;> exact Finset.mem_inter

/-- What is collected from the right child is on record there only. -/
theorem mem_right_collect : x ∈ (entry.collectChildOwnerships missing).right ↔
    x ∈ missing ∧ (entry.cell x).left = false ∧ (entry.cell x).right = true := by
  by_cases inside : x ∈ missing
  · cases left : (entry.cell x).left with
    | true => simp [(cell_collectChildOwnerships_of_left inside left).2.2]
    | false =>
      cases right : (entry.cell x).right with
      | true => simp [inside, (cell_collectChildOwnerships_of_right inside left right).2.2]
      | false => simp [(cell_collectChildOwnerships_of_free missing left right).2.2]
  · simp [inside, (cell_collectChildOwnerships_of_notMem entry inside).2.2]

/-- Collecting from an inner node takes parts off its records. -/
theorem record_collectChildOwnerships (entry : IndexEntry α) (missing : Finset α) (side : Side) :
    (entry.collectChildOwnerships missing).entry.record side ⊆ entry.record side := by
  unfold collectChildOwnerships
  simp only
  cases side <;> (repeat' split) <;> simp [record, Finset.sdiff_subset]

end Collecting

end IndexEntry

end AllScale
