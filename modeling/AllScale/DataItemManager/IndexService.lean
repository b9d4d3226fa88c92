import AllScale.DataItemManager.IndexEntry
import AllScale.DataItemManager.DataItem

/-!
# The distributed index

The index entries of all virtual nodes and the items of all localities make up the state. The
operations of `index_service.hpp` that call other nodes run here to their end before anything
else happens: `collectChildOwnerships` recurses down, `acquireOwnershipFor` up and down, and
`locate` in both directions, the last with a bound on the depth of its calls, because it has no
measure that decreases. The order of the calls and of the merged results is that of the source.
-/

namespace AllScale

variable {α V : Type}

/-- The distributed state of one data item. -/
structure State (α V : Type) where
  /-- The index entry of every virtual node. -/
  index : HierarchyAddress → IndexEntry α
  /-- The item of every locality. -/
  items : Nat → DataItem α V

namespace State

/-- Nothing has been acquired yet. -/
def initial : State α V := ⟨fun _ => .empty, fun _ => .create⟩

/-- Replace one index entry. -/
def setEntry (s : State α V) (addr : HierarchyAddress) (entry : IndexEntry α) : State α V :=
  { s with index := Function.update s.index addr entry }

/-- Replace one item. -/
def setItem (s : State α V) (rank : Nat) (item : DataItem α V) : State α V :=
  { s with items := Function.update s.items rank item }

@[simp] theorem index_setEntry (s : State α V) (addr : HierarchyAddress) (entry : IndexEntry α) :
    (s.setEntry addr entry).index = Function.update s.index addr entry := rfl

@[simp] theorem items_setEntry (s : State α V) (addr : HierarchyAddress) (entry : IndexEntry α) :
    (s.setEntry addr entry).items = s.items := rfl

@[simp] theorem index_setItem (s : State α V) (rank : Nat) (item : DataItem α V) :
    (s.setItem rank item).index = s.index := rfl

@[simp] theorem items_setItem (s : State α V) (rank : Nat) (item : DataItem α V) :
    (s.setItem rank item).items = Function.update s.items rank item := rfl

/-- Two states that differ in their caches only. -/
structure CachesOnly (s s' : State α V) : Prop where
  /-- The managed regions are the same. -/
  full : ∀ addr, (s'.index addr).full = (s.index addr).full
  /-- The records for left children are the same. -/
  left : ∀ addr, (s'.index addr).left = (s.index addr).left
  /-- The records for right children are the same. -/
  right : ∀ addr, (s'.index addr).right = (s.index addr).right
  /-- The stored data are the same. -/
  items : s'.items = s.items

/-- Two states have the same caches. -/
def SameCaches (s s' : State α V) : Prop :=
  ∀ addr, (s'.index addr).locationCache = (s.index addr).locationCache

namespace SameCaches

/-- Having the same caches is transitive. -/
theorem trans {s t u : State α V} (first : SameCaches s t) (second : SameCaches t u) :
    SameCaches s u := fun addr => (second addr).trans (first addr)

/-- Replacing an entry by one with the same cache. -/
theorem setEntry {s : State α V} {addr : HierarchyAddress} {entry : IndexEntry α}
    (same : entry.locationCache = (s.index addr).locationCache) :
    SameCaches s (s.setEntry addr entry) := by
  intro n
  by_cases h : n = addr
  · subst h
    simpa using same
  · simp [h]

/-- A call that may be left out. -/
theorem ite {left : Prop} [Decidable left] {s : State α V}
    {result : LocationInfo α × State α V} (same : SameCaches s result.2) :
    SameCaches s (if left then (LocationInfo.empty, s) else result).2 := by
  split
  · exact fun _ => rfl
  · exact same

end SameCaches

namespace CachesOnly

/-- Nothing is written. -/
theorem refl (s : State α V) : CachesOnly s s :=
  ⟨fun _ => rfl, fun _ => rfl, fun _ => rfl, rfl⟩

/-- Writes to caches add up. -/
theorem trans {s t u : State α V} (first : CachesOnly s t) (second : CachesOnly t u) :
    CachesOnly s u :=
  ⟨fun addr => (second.full addr).trans (first.full addr),
    fun addr => (second.left addr).trans (first.left addr),
    fun addr => (second.right addr).trans (first.right addr), second.items.trans first.items⟩

/-- Writing to the cache of one entry. -/
theorem setCache (s : State α V) (addr : HierarchyAddress) (cache : LocationInfo α) :
    CachesOnly s (s.setEntry addr { s.index addr with locationCache := cache }) := by
  refine ⟨fun n => ?_, fun n => ?_, fun n => ?_, rfl⟩ <;>
    by_cases h : n = addr <;> simp [h]

end CachesOnly

variable [DecidableEq α]

/-- `collect_child_ownerships`; `layer` is the layer of the addressed node. What is on record for a
right child that does not exist is collected from the left one here; the source asserts that
`right_id_` is valid, and without assertions its call of the invalid id is never delivered. -/
def collectChildOwnerships (size : Nat) : (layer : Nat) → State α V → HierarchyAddress →
    Finset α → LocationInfo α × State α V
  | 0, s, here, missing =>
    let s := s.setEntry here ((s.index here).collectAtLeaf missing)
    let item := s.items here.rank
    let s := s.setItem here.rank { item with exclusive := item.exclusive \ missing }
    -- without memory for the region there is nothing to transfer
    if missing ⊆ item.fragment.coveredRegion then (LocationInfo.empty.addPart here.rank missing, s)
    else (.empty, s)
  | layer + 1, s, here, missing =>
    let service := IndexService.create size here
    let collected := (s.index here).collectChildOwnerships missing
    let s := s.setEntry here collected.entry
    let right :=
      if collected.right = ∅ then (.empty, s)
      else collectChildOwnerships size layer s service.right collected.right
    let left :=
      if collected.left = ∅ then (.empty, right.2)
      else collectChildOwnerships size layer right.2 service.left collected.left
    ((LocationInfo.empty.addParts right.1).addParts left.1, left.2)

/-- `acquire_ownership_for` at one node; `ask` is the call to the parent. -/
def acquireOwnershipAt (size : Nat)
    (ask : State α V → HierarchyAddress → HierarchyAddress → Finset α →
      LocationInfo α × State α V)
    (s : State α V) (here child : HierarchyAddress) (missing : Finset α) :
    LocationInfo α × State α V :=
  let service := IndexService.create size here
  let claimed := (s.index here).acquireOwnershipFor service child missing
  let s := s.setEntry here claimed.entry
  let up :=
    if claimed.missing = ∅ ∨ service.isRoot then (.empty, s)
    else ask s service.parent here claimed.missing
  let newChild := if child == service.right then service.left else service.right
  let down :=
    if claimed.part = ∅ then (.empty, up.2)
    else collectChildOwnerships size newChild.layer up.2 newChild claimed.part
  ((LocationInfo.empty.addParts up.1).addParts down.1, down.2)

/-- `acquire_ownership_for`; `height` is the distance of the addressed node from the root, above
which no one is asked. -/
def acquireOwnershipFor (size : Nat) : (height : Nat) → State α V → HierarchyAddress →
    HierarchyAddress → Finset α → LocationInfo α × State α V
  | 0 => acquireOwnershipAt size fun s _ _ _ => (.empty, s)
  | height + 1 => acquireOwnershipAt size (acquireOwnershipFor size height)

/-- `acquire_ownership`. -/
def acquireOwnership (size : Nat) (s : State α V) (here : HierarchyAddress)
    (missing : Finset α) : LocationInfo α × State α V :=
  let service := IndexService.create size here
  let s := s.setEntry here ((s.index here).acquireOwnership missing)
  if service.isRoot then (.empty, s)
  else
    let height := (HierarchyAddress.getRootOfNetworkSize size).layer - service.parent.layer
    acquireOwnershipFor size height s service.parent here missing

/-- A call of `locate` to another node, which is left out for an empty region. -/
def ask (call : State α V → HierarchyAddress → Finset α → Option (LocationInfo α × State α V))
    (s : State α V) (addr : HierarchyAddress) (region : Finset α) :
    Option (LocationInfo α × State α V) :=
  if region = ∅ then some (.empty, s) else call s addr region

/-- `locate` at one node; `call` are the calls to other nodes. -/
def locateAt (size : Nat)
    (call : State α V → HierarchyAddress → Finset α → Option (LocationInfo α × State α V))
    (s : State α V) (here : HierarchyAddress) (region : Finset α) :
    Option (LocationInfo α × State α V) := do
  let service := IndexService.create size here
  let located := (s.index here).locate service region
  let right ← ask call s service.right located.right
  let left ← ask call right.2 service.left located.left
  let parent ← ask call left.2 service.parent located.parent
  let merge (info : LocationInfo α) := ((info.addParts right.1).addParts left.1).addParts parent.1
  let entry := parent.2.index here
  some (merge located.info,
    parent.2.setEntry here { entry with locationCache := merge entry.locationCache })

/-- `locate`, with a bound on the depth of nested calls; `none` when it is exceeded. -/
def locate (size : Nat) : (fuel : Nat) → State α V → HierarchyAddress → Finset α →
    Option (LocationInfo α × State α V)
  | 0 => fun _ _ _ => none
  | fuel + 1 => locateAt size (locate size fuel)

end State

end AllScale
