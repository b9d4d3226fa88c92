import Mathlib.Data.Finset.Basic
import AllScale.DataItemManager.IndexEntry
import AllScale.Lib.Run

/-!
# Records of an inner node

An inner node keeps on record which elements it has handed to which of its children. The locked
sections that hand elements down, move them between the children or collect them run one after the
other in any order. No order puts an element on both records, so a lookup and a collection follow
an element into one subtree only.
-/

namespace AllScale

open Transition TokenTree

namespace IndexEntry

variable {α : Type} [DecidableEq α]

/-- The code between taking and releasing the lock of an entry, at an inner node. -/
inductive LockedSection (α : Type) where
  /-- `index_entry::add_full`. -/
  | addFull (region : Finset α)
  /-- `index_entry::add_left`. -/
  | addLeft (region required : Finset α)
  /-- `index_entry::add_right`. -/
  | addRight (region required : Finset α)
  /-- `index_entry::acquire_ownership_for`, called by the child on a side. -/
  | acquireOwnershipFor (side : Side) (missing : Finset α)
  /-- `index_entry::collect_child_ownerships`. -/
  | collectChildOwnerships (missing : Finset α)
  /-- `index_entry::update_cache`. -/
  | updateCache (missing : Finset α) (newRank : Nat)

/-- What a locked section leaves behind in the entry. -/
def perform (service : IndexService) (entry : IndexEntry α) : LockedSection α → IndexEntry α
  | .addFull region => entry.addFull region
  | .addLeft region required => (entry.addLeft region required).1
  | .addRight region required => (entry.addRight region required).1
  | .acquireOwnershipFor side missing =>
    (entry.acquireOwnershipFor service (service.child side) missing).entry
  | .collectChildOwnerships missing => (entry.collectChildOwnerships missing).entry
  | .updateCache missing newRank => entry.updateCache missing newRank

/-- The entry of a node from its creation on, with the locked sections in any order. -/
def routing (α : Type) [DecidableEq α] (service : IndexService) :
    System (IndexEntry α) (LockedSection α) where
  start := empty
  step entry locked entry' := entry' = entry.perform service locked

/-- Every locked section can run in every state. -/
theorem routing_step (service : IndexService) (entry : IndexEntry α) (locked : LockedSection α) :
    (routing α service).step entry locked (entry.perform service locked) := rfl

/-- No element is on record for both children. -/
def Unambiguous (entry : IndexEntry α) : Prop := Disjoint entry.left entry.right

variable {service : IndexService} {entry : IndexEntry α} {x : α}

omit [DecidableEq α] in
/-- The records of a node are disjoint seen from either child. -/
theorem unambiguous_iff (side : Side) :
    entry.Unambiguous ↔ Disjoint (entry.record side) (entry.record side.other) := by
  cases side with
  | left => exact Iff.rfl
  | right => exact disjoint_comm

/-! ## What a locked section does to the records -/

/-- Merging an allowance touches no record. -/
theorem record_addFull (entry : IndexEntry α) (region : Finset α) :
    (entry.addFull region).record = entry.record := by
  unfold addFull
  split
  · rfl
  · rfl

/-- What is handed to a child is added to the record of that child. -/
theorem record_addSide (side : Side) (entry : IndexEntry α) (region required : Finset α) :
    (entry.addSide side region required).1.record side =
        entry.record side ∪ (entry.addSide side region required).2 ∧
      (entry.addSide side region required).1.record side.other = entry.record side.other := by
  cases side with
  | left =>
    simp only [addSide, addLeft]
    split
    · exact ⟨(Finset.union_empty _).symm, rfl⟩
    · exact ⟨rfl, rfl⟩
  | right =>
    simp only [addSide, addRight]
    split
    · exact ⟨(Finset.union_empty _).symm, rfl⟩
    · exact ⟨rfl, rfl⟩

/-- Nothing is handed to a child that is on record for the other one. -/
theorem disjoint_addSide (side : Side) (entry : IndexEntry α) (region required : Finset α) :
    Disjoint (entry.addSide side region required).2 (entry.record side.other) := by
  cases side with
  | left =>
    simp only [addSide, addLeft]
    split
    · exact Finset.disjoint_empty_left _
    · exact Finset.sdiff_disjoint
  | right =>
    simp only [addSide, addRight]
    split
    · exact Finset.disjoint_empty_left _
    · exact Finset.sdiff_disjoint

/-! ## The records stay disjoint -/

/-- Handing on keeps the records disjoint. -/
theorem Unambiguous.addSide (before : entry.Unambiguous) (side : Side)
    (region required : Finset α) : (entry.addSide side region required).1.Unambiguous := by
  have separate := (unambiguous_iff side).mp before
  have handed := disjoint_addSide side entry region required
  rw [unambiguous_iff side, (record_addSide side entry region required).1,
    (record_addSide side entry region required).2]
  exact Finset.disjoint_union_left.mpr ⟨separate, handed⟩

/-- A claim keeps the records disjoint. The child that is not the right one counts as the left
one, whatever the addresses are. -/
theorem Unambiguous.acquireOwnershipFor (before : entry.Unambiguous) (service : IndexService)
    (child : HierarchyAddress) (missing : Finset α) :
    (entry.acquireOwnershipFor service child missing).entry.Unambiguous := by
  obtain ⟨side, place⟩ := exists_claimant service child
  have separate := (unambiguous_iff side).mp before
  rw [unambiguous_iff side, (record_acquireOwnershipFor place).1,
    (record_acquireOwnershipFor place).2]
  exact Finset.disjoint_union_left.mpr
    ⟨separate.mono_right Finset.sdiff_subset, Finset.disjoint_sdiff⟩

/-- Collecting keeps the records disjoint. -/
theorem Unambiguous.collectChildOwnerships (before : entry.Unambiguous) (missing : Finset α) :
    (entry.collectChildOwnerships missing).entry.Unambiguous :=
  before.mono (record_collectChildOwnerships entry missing .left)
    (record_collectChildOwnerships entry missing .right)

/-- Every locked section keeps the records disjoint. -/
theorem Unambiguous.perform (before : entry.Unambiguous) (service : IndexService)
    (locked : LockedSection α) : (entry.perform service locked).Unambiguous := by
  cases locked with
  | addFull region =>
    have same := record_addFull entry region
    show Disjoint ((entry.addFull region).record .left) ((entry.addFull region).record .right)
    rw [same]
    exact before
  | addLeft region required => exact before.addSide .left region required
  | addRight region required => exact before.addSide .right region required
  | acquireOwnershipFor side missing =>
    exact before.acquireOwnershipFor service (service.child side) missing
  | collectChildOwnerships missing => exact before.collectChildOwnerships missing
  | updateCache missing newRank => exact before

/-- The records are disjoint in every reachable state. -/
theorem unambiguous_of_run {history : List (IndexEntry α × LockedSection α)}
    (run : (routing α service).Run history entry) : entry.Unambiguous :=
  run.invariant (Finset.disjoint_empty_left _) fun {_ locked _} before taken =>
    taken ▸ before.perform service locked

/-! ## Where the records lead -/

omit [DecidableEq α] in
/-- With disjoint records an element is on record for one child at most. -/
theorem Unambiguous.side_eq (separate : entry.Unambiguous) {s t : Side}
    (first : x ∈ entry.record s) (second : x ∈ entry.record t) : s = t := by
  by_contra different
  rw [Side.eq_other_of_ne different] at first
  exact Finset.disjoint_left.mp ((unambiguous_iff t).mp separate) second first

/-- In every state of an entry each child is sent exactly what is on record for it, although the
left one is asked first. -/
theorem collected_of_run {history : List (IndexEntry α × LockedSection α)}
    (run : (routing α service).Run history entry) (missing : Finset α) :
    (entry.collectChildOwnerships missing).left = missing ∩ entry.left ∧
      (entry.collectChildOwnerships missing).right = missing ∩ entry.right := by
  have separate := unambiguous_of_run run
  constructor
  · ext x
    rw [mem_left_collect, left_cell, decide_eq_true_iff, Finset.mem_inter]
  · ext x
    rw [mem_right_collect, left_cell, right_cell, decide_eq_false_iff_not, decide_eq_true_iff,
      Finset.mem_inter]
    have one : x ∈ entry.right → x ∉ entry.left := fun right left =>
      Finset.disjoint_left.mp separate left right
    exact ⟨fun found => ⟨found.1, found.2.2⟩, fun found => ⟨found.1, one found.2, found.2⟩⟩

/-- In every state of an entry the records for the two children are disjoint, and no element is
directed into both subtrees. -/
theorem records_disjoint {service : IndexService}
    {history : List (IndexEntry α × LockedSection α)} {entry : IndexEntry α}
    (run : (routing α service).Run history entry) :
    Disjoint entry.left entry.right ∧
      ∀ {x : α} {s t : Side}, x ∈ entry.record s → x ∈ entry.record t → s = t :=
  have separate := unambiguous_of_run run
  ⟨separate, separate.side_eq⟩

/-- The root of two localities hands three elements to its left child, the right child claims one of
them and is handed another one, and one is collected from the left child. -/
theorem records_disjoint_create :
    ∃ (history : List (IndexEntry Nat × LockedSection Nat)) (entry : IndexEntry Nat),
      (routing Nat (.create 2 ⟨0, 1⟩)).Run history entry ∧
      history.map Prod.snd =
        [.collectChildOwnerships {1}, .addRight {3} {3}, .acquireOwnershipFor .right {2},
          .addLeft {1, 2, 4} {1, 2, 4}] ∧
      entry.left = {4} ∧ entry.right = {2, 3} ∧ Disjoint entry.left entry.right ∧
      ∀ {x : Nat} {s t : Side}, x ∈ entry.record s → x ∈ entry.record t → s = t := by
  have handed := System.Run.start.step
    (routing_step (.create 2 ⟨0, 1⟩) empty (.addLeft {1, 2, 4} {1, 2, 4}))
  have claimed := handed.step (routing_step _ _ (.acquireOwnershipFor .right {2}))
  have handed' := claimed.step (routing_step _ _ (.addRight {3} {3}))
  have run := handed'.step (routing_step _ _ (.collectChildOwnerships {1}))
  exact ⟨_, _, run, rfl, by decide, by decide, records_disjoint run⟩

end IndexEntry

end AllScale
