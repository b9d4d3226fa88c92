import AllScale.DataItemManager.IndexService

/-!
# Acquiring and allowing

The entry points of the data item manager (`acquire.hpp`, `add_allowance.hpp`,
`get_missing_regions.hpp`) and, on top of them, what happens to the requirement of one work
item: `acquire` gets ownership of what a leaf is missing and then the data, a scheduled task is
given an allowance where its scheduling starts and hands it down to the node where it ends.
-/

namespace AllScale

open TokenTree

variable {α V : Type} [DecidableEq α]

namespace State

/-! ## Transfers -/

/-- `transfer` — a view is saved at the source and loaded at the target. -/
def transfer (s : State α V) (source target : Nat) (region : Finset α) (migrate : Bool) :
    State α V :=
  let saved := DataItemView.save ⟨region, migrate⟩ (s.items source)
  let s := s.setItem source saved.2
  s.setItem target (DataItemView.load (s.items target) saved.1)

/-- The loop of `acquire` over the parts of a location info, without the target's own. -/
def transfers (s : State α V) (target : Nat) (migrate : Bool) (parts : List (Nat × Finset α)) :
    State α V :=
  parts.foldl (fun s part =>
    if part.1 = target then s else s.transfer part.1 target part.2 migrate) s

/-- The broadcast of `update_cache` to all nodes of all localities. -/
def updateCaches (size : Nat) (s : State α V) (missing : Finset α) (newRank : Nat) : State α V :=
  { s with index := fun addr =>
      if HierarchyAddress.InNetwork size addr then (s.index addr).updateCache missing newRank
      else s.index addr }

/-! ## Acquiring -/

/-- `acquire` for read-write access. -/
def acquireReadWrite (size : Nat) (s : State α V) (addr : HierarchyAddress) (region : Finset α) :
    State α V :=
  let missing := region \ (s.index addr).full
  if missing ≠ ∅ then
    let s := s.updateCaches size missing addr.rank
    let result := s.acquireOwnership size addr missing
    result.2.transfers addr.rank true result.1.regions
  else s

/-- `acquire` for read-only access, with a bound on the depth of the lookup. -/
def acquireReadOnly (size fuel : Nat) (s : State α V) (addr : HierarchyAddress)
    (region : Finset α) : Option (State α V) := do
  let result ← s.locate size fuel addr region
  some (result.2.transfers addr.rank false result.1.regions)

/-! ## Allowances -/

/-- `index_entry::resize_fragment`. -/
def resizeFragment (s : State α V) (rank : Nat) (region : Finset α) (exclusive : Bool) :
    State α V :=
  let item := s.items rank
  let fragment :=
    if region ⊆ item.fragment.coveredRegion then item.fragment
    else item.fragment.resize (item.fragment.coveredRegion ∪ region)
  s.setItem rank
    { fragment, exclusive := if exclusive then item.exclusive ∪ region else item.exclusive }

/-- `get_missing_regions` — whether there are unallocated allowances, and the requirement. -/
def getMissingRegions (size : Nat) (s : State α V) (addr : HierarchyAddress)
    (req : Requirement α) : Bool × Requirement α :=
  match req.mode with
  | .readOnly => (false, req)
  | .readWrite =>
    let missing := (s.index addr).getMissingRegion (IndexService.create size addr) req.region
    (missing.2, { req with allowance := missing.1 })

/-- `add_allowance`. -/
def addAllowance (s : State α V) (addr : HierarchyAddress) (req : Requirement α) : State α V :=
  match req.mode with
  | .readWrite =>
    let s := s.setEntry addr ((s.index addr).addFull req.allowance)
    if addr.isLeaf then s.resizeFragment addr.rank req.region true else s
  | .readOnly => if addr.isLeaf then s.resizeFragment addr.rank req.region false else s

/-- `add_allowance_left` or `add_allowance_right`. -/
def addAllowanceSide (side : Side) (s : State α V) (addr : HierarchyAddress)
    (req : Requirement α) : State α V × Requirement α :=
  match req.mode with
  | .readOnly => (s, req)
  | .readWrite =>
    let result := (s.index addr).addSide side req.allowance req.region
    (s.setEntry addr result.1, { req with allowance := result.2 })

/-! ## Work items -/

/-- Handing a requirement down from node to node; the result is the state, the node reached and
the requirement as it arrives there. -/
def scheduleDown (size : Nat) : List Side → State α V → HierarchyAddress → Requirement α →
    State α V × HierarchyAddress × Requirement α
  | [], s, addr, req => (s, addr, req)
  | side :: path, s, addr, req =>
    let result := s.addAllowanceSide side addr req
    scheduleDown size path result.1 ((IndexService.create size addr).child side) result.2

/-- `schedule_local` for a requirement that has arrived: the allowance ends here, and at a leaf
the work item is processed once the rest of its region is acquired. -/
def scheduleLocal (size : Nat) (s : State α V) (addr : HierarchyAddress) (req : Requirement α) :
    State α V :=
  let s := s.addAllowance addr req
  if addr.isLeaf then s.acquireReadWrite size addr req.region else s

/-- A write task from the node that looks up its missing region to the node where it ends. -/
def task (size : Nat) (s : State α V) (start : HierarchyAddress) (path : List Side)
    (region : Finset α) : State α V :=
  let req := (s.getMissingRegions size start ⟨region, ∅, .readWrite⟩).2
  let down := scheduleDown size path s start req
  down.1.scheduleLocal size down.2.1 down.2.2

/-- A write task that may not leave its locality: scheduled at the leaf that looks up its
missing region. -/
def localTask (size : Nat) (s : State α V) (leaf : HierarchyAddress) (region : Finset α) :
    State α V :=
  let req := (s.getMissingRegions size leaf ⟨region, ∅, .readWrite⟩).2
  s.scheduleLocal size leaf req

end State

end AllScale
