import AllScale.Lib.TokenParking
import AllScale.DataItemManager.Bookkeeping

/-!
# Assertions on the way of an acquire

An acquire that is missing something asserts that its requirement has no allowance, and the nodes
that it asks for the missing part assert that they have none of it on record for the child that
asks. A requirement whose allowance was handed down can arrive with one part allowed and another
part missing; and a node that a part was left to without being handed on is on record for it, while
the leaves below still miss it. These are the assertions about requirements and entries; those
that compare what has been collected with what was asked for are not considered here.
-/

namespace AllScale

open TokenTree HierarchyAddress Transition

variable {α V : Type} [DecidableEq α] {k : Nat}

/-! ## The assertions -/

namespace State

/-- The assertions of `acquire_ownership_for` about its arguments and the entry of a node; `asked`
are those of the call to the parent. -/
def assertsAt (size : Nat)
    (asked : State α V → HierarchyAddress → HierarchyAddress → Finset α → Prop)
    (s : State α V) (here child : HierarchyAddress) (missing : Finset α) : Prop :=
  let service := IndexService.create size here
  let record := if child == service.right then (s.index here).right else (s.index here).left
  let claimed := (s.index here).acquireOwnershipFor service child missing
  here.isLeaf = false ∧ (child = service.left ∨ child = service.right) ∧ record ∩ missing = ∅ ∧
    (¬ (claimed.missing = ∅ ∨ service.isRoot = true) →
      asked (s.setEntry here claimed.entry) service.parent here claimed.missing)

/-- The assertions of `acquire_ownership_for`; `height` is the distance of the addressed node from
the root. -/
def ownershipForAsserts (size : Nat) : (height : Nat) → State α V → HierarchyAddress →
    HierarchyAddress → Finset α → Prop
  | 0 => assertsAt size fun _ _ _ _ => True
  | height + 1 => assertsAt size (ownershipForAsserts size height)

/-- The assertions of `acquire_ownership` about the entry of a leaf, and those of the calls that it
makes. -/
def ownershipAsserts (size : Nat) (s : State α V) (here : HierarchyAddress) (missing : Finset α) :
    Prop :=
  let service := IndexService.create size here
  here.isLeaf = true ∧ (s.index here).full ∩ missing = ∅ ∧
    (service.isRoot = false →
      let height := (getRootOfNetworkSize size).layer - service.parent.layer
      ownershipForAsserts size height
        (s.setEntry here ((s.index here).acquireOwnership missing)) service.parent here missing)

/-- The assertions of `acquire` for read-write access, once something is missing. -/
def acquireAsserts (size : Nat) (s : State α V) (addr : HierarchyAddress) (req : Requirement α) :
    Prop :=
  let missing := req.region \ (s.index addr).full
  missing ≠ ∅ → req.allowance = ∅ ∧
    (s.updateCaches size missing addr.rank).ownershipAsserts size addr missing

/-- What a leaf is missing of a region is not managed-but-unallocated at an ancestor of the leaf
that is on record for it. -/
def Claimable (k : Nat) (s : State α V) (leaf : HierarchyAddress) (region : Finset α) : Prop :=
  ∀ addr, (overlay k).Above addr leaf → addr ≠ (overlay k).root →
    ∀ x ∈ (s.index addr).getManagedUnallocated (.create (2 ^ k) addr)
      (region \ (s.index leaf).full), (overlay k).recorded (s.grid x) addr = false

/-- An element that is handed down to a leaf: it is managed-but-unallocated at a node on the way, or
missing at the node where the task starts, which does not manage it. -/
def Arrives (k : Nat) (s : State α V) (start leaf : HierarchyAddress) (region : Finset α) (x : α) :
    Prop :=
  (∃ addr, (overlay k).Above start addr ∧ (overlay k).Above addr leaf ∧
      x ∈ (s.index addr).getManagedUnallocated (.create (2 ^ k) addr) region) ∨
    x ∈ ((s.index start).getMissingRegion (.create (2 ^ k) start) region).1 ∧
      (s.grid x start).managed = false

end State

/-- The assertions that are checked during an action. -/
def Action.Asserts (k : Nat) (s : State α V) : Action α → Prop
  | .acquire leaf region => s.acquireAsserts (2 ^ k) leaf ⟨region, ∅, .readWrite⟩
  | .read _ _ => True
  | .locate _ _ => True
  | .task start path region =>
    let req := (s.getMissingRegions (2 ^ k) start ⟨region, ∅, .readWrite⟩).2
    let down := State.scheduleDown (2 ^ k) path s start req
    down.2.1.isLeaf = true →
      (down.1.addAllowance down.2.1 down.2.2).acquireAsserts (2 ^ k) down.2.1 down.2.2

/-- An acquire finds nothing that it is missing parked above its leaf. A task that ends at a leaf
has all of its region arrive or owned by the leaf, or none of it arrives and the acquire finds
nothing parked. -/
def Action.Safe (k : Nat) (s : State α V) : Action α → Prop
  | .acquire leaf region => s.Claimable k leaf region
  | .read _ _ => True
  | .locate _ _ => True
  | .task start path region =>
    let leaf := (overlay k).descend path start
    leaf.isLeaf = true →
      (∀ x ∈ region, x ∈ (s.index leaf).full ∨ s.Arrives k start leaf region x) ∨
        (∀ x ∈ region, ¬ s.Arrives k start leaf region x) ∧ s.Claimable k leaf region

/-! ## The cascade -/

namespace State

/-- The assertions at one node hold for every missing element, where those at the parent do. -/
theorem assertsAt_iff {asked : State α V → HierarchyAddress → HierarchyAddress → Finset α → Prop}
    {s : State α V} {here : HierarchyAddress} {side : Side} {missing : Finset α}
    (above : α → Prop) (member : (overlay k).Mem here) (inner : (overlay k).layer here ≠ 0)
    (asks : ∀ entry region, here ≠ (overlay k).root →
      (asked (s.setEntry here entry) here.getParent here region ↔ ∀ x ∈ region, above x)) :
    s.assertsAt (2 ^ k) asked here ((overlay k).child side here) missing ↔
      ∀ x ∈ missing, (s.grid x here).on side = false ∧
        ((s.grid x here).on side.other = false → here ≠ (overlay k).root → above x) := by
  have place := beq_right_eq side member inner
  have remains {x : α} :
      x ∈ ((s.index here).acquireOwnershipFor (IndexService.create (2 ^ k) here)
          ((overlay k).child side here) missing).missing ↔
        x ∈ missing ∧ (s.grid x here).on side.other = false := IndexEntry.mem_missing place
  have record {x : α} : x ∈ (if ((overlay k).child side here ==
      (IndexService.create (2 ^ k) here).right) = true then (s.index here).right
      else (s.index here).left) ↔ (s.grid x here).on side = true := by
    rw [place]
    cases side <;> simp [Cell.on]
  constructor
  · rintro ⟨-, -, apart, asks'⟩ x wanted
    have own : (s.grid x here).on side = false := by
      by_contra recorded
      have both := Finset.mem_inter.mpr ⟨record.mpr (by simpa using recorded), wanted⟩
      rw [apart] at both
      exact Finset.notMem_empty x both
    refine ⟨own, fun free notRoot => ?_⟩
    have left := remains.mpr ⟨wanted, free⟩
    refine (asks _ _ notRoot).mp (asks' ?_) x left
    rintro (none | isRoot)
    · exact Finset.ne_empty_of_mem left none
    · exact notRoot (IndexService.isRoot_create.mp isRoot)
  · intro all
    refine ⟨IndexService.isLeaf_false_iff.mpr inner, ?_, ?_, fun goesOn => ?_⟩
    · cases side with
      | left => exact Or.inl (IndexService.left_create inner).symm
      | right => exact Or.inr (IndexService.right_create member inner).symm
    · apply Finset.eq_empty_of_forall_notMem
      intro x both
      obtain ⟨recorded, wanted⟩ := Finset.mem_inter.mp both
      rw [record, (all x wanted).1] at recorded
      cases recorded
    · have notRoot : here ≠ (overlay k).root := fun isRoot =>
        goesOn (Or.inr (IndexService.isRoot_create.mpr isRoot))
      apply (asks _ _ notRoot).mpr
      intro x left
      obtain ⟨wanted, free⟩ := remains.mp left
      exact (all x wanted).2 free notRoot

/-- The assertions of a cascade hold exactly if no claim of a missing element finds its own side on
record. -/
theorem ownershipForAsserts_iff (height : Nat) (s : State α V) {here : HierarchyAddress}
    (side : Side) (missing : Finset α) (member : (overlay k).Mem here)
    (inner : (overlay k).layer here ≠ 0) :
    s.ownershipForAsserts (2 ^ k) height here ((overlay k).child side here) missing ↔
      ∀ x ∈ missing, (overlay k).Unclaimed (s.grid x) height here side := by
  induction height generalizing s here side missing with
  | zero =>
    rw [ownershipForAsserts, assertsAt_iff (fun _ => True) member inner (fun _ _ _ => by simp)]
    simp [LayeredTree.Unclaimed]
  | succ height ih =>
    rw [ownershipForAsserts]
    refine assertsAt_iff (fun x => (overlay k).Unclaimed (s.grid x) height here.getParent
      here.getSide) member inner fun entry region notRoot => ?_
    have high : (overlay k).Mem here.getParent := (overlay k).parent_mem member notRoot
    have place : (overlay k).child here.getSide here.getParent = here :=
      (overlay k).child_side member notRoot
    have asked := ih (s.setEntry here entry) here.getSide region high
      ((overlay k).layer_parent_ne_zero member notRoot)
    rw [place] at asked
    refine asked.trans (forall₂_congr fun x _ => LayeredTree.unclaimed_congr fun a above => ?_)
    rw [grid_setEntry, Function.update_of_ne]
    exact above.ne_of_parent member notRoot

/-- What is missing at a leaf and parked above it is not on record. -/
theorem claimable_iff {s : State α V} {leaf : HierarchyAddress} {region : Finset α}
    (member : InNetwork (2 ^ k) leaf) (low : leaf.isLeaf = true) :
    s.Claimable k leaf region ↔ ∀ x ∈ region \ (s.index leaf).full, ∀ addr,
      (overlay k).Above addr leaf → addr ≠ (overlay k).root →
        (s.grid x addr).parked = true → (overlay k).recorded (s.grid x) addr = false := by
  have flat : (overlay k).layer leaf = 0 := IndexService.isLeaf_iff.mp low
  constructor
  · intro claimable x lacking addr above notRoot parked
    apply claimable addr above notRoot x
    apply (parked_iff flat lacking above member).mp
    refine ⟨?_, parked⟩
    rintro rfl
    have absent := (Finset.mem_sdiff.mp lacking).2
    simp [Cell.parked, absent] at parked
  · intro unrecorded addr above notRoot x found
    obtain ⟨-, lacking, parked⟩ := IndexEntry.mem_getManagedUnallocated.mp found
    exact unrecorded x lacking addr above notRoot parked

/-- The assertions of `acquire_ownership` hold exactly if the leaf owns nothing of what is missing,
and no claim of it finds its own side on record. -/
theorem ownershipAsserts_iff (s : State α V) {leaf : HierarchyAddress} (missing : Finset α)
    (member : InNetwork (2 ^ k) leaf) (low : leaf.isLeaf = true) :
    s.ownershipAsserts (2 ^ k) leaf missing ↔
      (s.index leaf).full ∩ missing = ∅ ∧ (leaf ≠ (overlay k).root → ∀ x ∈ missing,
        (overlay k).Unclaimed (s.grid x)
          ((overlay k).layer (overlay k).root - (overlay k).layer ((overlay k).parent leaf))
          ((overlay k).parent leaf) ((overlay k).side leaf)) := by
  have below : (IndexService.create (2 ^ k) leaf).isRoot = false ↔ leaf ≠ (overlay k).root := by
    rw [← Bool.not_eq_true, not_iff_not]
    exact IndexService.isRoot_create
  unfold ownershipAsserts
  rw [and_iff_right low, below]
  refine and_congr_right fun _ => forall_congr' fun notRoot => ?_
  have high : (overlay k).Mem leaf.getParent := (overlay k).parent_mem member notRoot
  have place : (overlay k).child leaf.getSide leaf.getParent = leaf :=
    (overlay k).child_side member notRoot
  have asked := ownershipForAsserts_iff ((getRootOfNetworkSize (2 ^ k)).layer -
    leaf.getParent.layer) (s.setEntry leaf ((s.index leaf).acquireOwnership missing)) leaf.getSide
    missing high ((overlay k).layer_parent_ne_zero member notRoot)
  rw [place] at asked
  refine asked.trans (forall₂_congr fun x _ => LayeredTree.unclaimed_congr fun a above => ?_)
  -- the entry of the leaf is not above its parent
  rw [grid_setEntry, Function.update_of_ne]
  exact above.ne_of_parent member notRoot

/-- The claims of what a leaf is missing find their own side on record nowhere exactly if nothing of
it is parked above the leaf. -/
theorem unclaimed_iff_claimable {s : State α V} {leaf : HierarchyAddress} {region : Finset α}
    (sound : s.Sound k) (capped : ∀ x, (overlay k).Capped (s.grid x))
    (member : InNetwork (2 ^ k) leaf) (low : leaf.isLeaf = true) :
    (leaf ≠ (overlay k).root → ∀ x ∈ region \ (s.index leaf).full,
      (overlay k).Unclaimed (s.grid x)
        ((overlay k).layer (overlay k).root - (overlay k).layer ((overlay k).parent leaf))
        ((overlay k).parent leaf) ((overlay k).side leaf)) ↔ s.Claimable k leaf region := by
  have flat : (overlay k).layer leaf = 0 := IndexService.isLeaf_iff.mp low
  by_cases isRoot : leaf = (overlay k).root
  · refine ⟨fun _ addr above notRoot => ?_, fun _ notRoot => absurd isRoot notRoot⟩
    exact absurd isRoot (above.parent_of_ne fun here => notRoot (here.trans isRoot)).1
  · rw [claimable_iff member low, imp_iff_right isRoot]
    exact forall₂_congr fun x _ => (capped x).unclaimed_iff (sound x) _ member isRoot rfl
      ((sound x).leaf leaf member flat)

/-- The assertions of an acquire hold exactly if nothing is missing, or there is no allowance and
nothing that is missing is parked above the leaf. -/
theorem acquireAsserts_iff {s : State α V} {leaf : HierarchyAddress} {req : Requirement α}
    (sound : s.Sound k) (capped : ∀ x, (overlay k).Capped (s.grid x))
    (member : InNetwork (2 ^ k) leaf) (low : leaf.isLeaf = true) :
    s.acquireAsserts (2 ^ k) leaf req ↔
      req.region ⊆ (s.index leaf).full ∨ req.allowance = ∅ ∧ s.Claimable k leaf req.region := by
  have full (missing : Finset α) :
      ((s.updateCaches (2 ^ k) missing leaf.rank).index leaf).full = (s.index leaf).full := by
    simp only [updateCaches]
    split <;> rfl
  have asked :
      (s.updateCaches (2 ^ k) (req.region \ (s.index leaf).full) leaf.rank).ownershipAsserts (2 ^ k)
        leaf (req.region \ (s.index leaf).full) ↔ s.Claimable k leaf req.region := by
    rw [ownershipAsserts_iff _ _ member low, full, and_iff_right (Finset.inter_sdiff_self _ _),
      ← unclaimed_iff_claimable sound capped member low]
    simp only [grid_updateCaches]
  simp only [acquireAsserts]
  rw [asked, ← Finset.sdiff_eq_empty_iff_subset]
  exact imp_iff_not_or.trans (or_congr_left not_not)

/-! ## Grids of a run -/

/-- No element is managed below a node that has parked it. -/
def Capped (k : Nat) (s : State α V) : Prop := ∀ x, (overlay k).Capped (s.grid x)

/-- At the start nothing is managed. -/
theorem capped_initial : (State.initial : State α V).Capped k := by
  intro x
  have unmanaged (n : HierarchyAddress) :
      ((State.initial : State α V).grid x n).managed = false := by
    rw [grid_initial]
    rfl
  refine ⟨fun n _ managed => ?_, fun _ m _ _ _ managed => ?_⟩
  · rw [unmanaged] at managed
    cases managed
  · rw [unmanaged] at managed
    cases managed

/-- What a task is allowed where it starts is managed there, or can arrive there. -/
theorem Capped.due {s : State α V} (capped : s.Capped k) {start : HierarchyAddress}
    {region : Finset α} (begins : start = getRootOfNetworkSize (2 ^ k) ∨
      (s.getMissingRegions (2 ^ k) start ⟨region, ∅, .readWrite⟩).1 = true) {x : α}
    (missing : x ∈ ((s.index start).getMissingRegion (.create (2 ^ k) start) region).1) :
    (s.grid x start).managed = true ∨ (overlay k).Bare (s.grid x) start := by
  by_cases isRoot : start = (overlay k).root
  · cases managed : (s.grid x start).managed with
    | true => exact Or.inl rfl
    | false =>
      rw [isRoot] at managed ⊢
      exact Or.inr ((capped x).bare_root managed)
  · exact Or.inl (Cell.managed_of_parked (parked_of_begins begins isRoot missing).2)

end State

/-- A step manages no element below a node that has parked it. -/
theorem Step.capped {s s' : State α V} {action : Action α} (capped : s.Capped k)
    (step : Step k s action s') : s'.Capped k := by
  intro x
  rw [step.grid x]
  cases step with
  | acquire member low =>
    simp only [Action.effect]
    split
    · exact (capped x).take member (IndexService.isLeaf_iff.mp low)
    · exact capped x
  | read => exact capped x
  | locate => exact capped x
  | task member fits begins =>
    simp only [Action.effect]
    split
    · exact (capped x).dispatch _ member fits fun missing =>
        capped.due begins (by simpa using missing)
    · exact capped x

/-! ## Tasks -/

namespace State

section Task

variable {s : State α V} {start : HierarchyAddress} {path : List Side} {region : Finset α}
  (member : InNetwork (2 ^ k) start) (fits : path.length ≤ start.layer)
  (begins : start = getRootOfNetworkSize (2 ^ k) ∨
    (s.getMissingRegions (2 ^ k) start ⟨region, ∅, .readWrite⟩).1 = true)

/-- An element that is handed down: the grid, and whether it arrives. -/
def handedDown (k : Nat) (s : State α V) (start : HierarchyAddress) (path : List Side)
    (region : Finset α) (x : α) : Grid HierarchyAddress × Bool :=
  (overlay k).passDown path (s.grid x) start
    (decide (x ∈ ((s.index start).getMissingRegion (.create (2 ^ k) start) region).1))

include member fits begins

/-- An element that is handed down arrives when it is parked on the way, or missing where the task
starts. -/
theorem handedDown_iff (capped : s.Capped k) {x : α} (sound : (overlay k).Sound (s.grid x))
    (wanted : x ∈ region) (low : ((overlay k).descend path start).isLeaf = true) :
    (s.handedDown k start path region x).2 = true ↔
      s.Arrives k start ((overlay k).descend path start) region x := by
  obtain ⟨node, -, -⟩ := (overlay k).descend_spec path member fits
  have flat := IndexService.isLeaf_iff (k := k).mp low
  have whole : path = [] →
      decide (x ∈ ((s.index start).getMissingRegion (.create (2 ^ k) start) region).1) = true →
        (s.grid x start).managed = false := by
    rintro rfl missing
    have flags := sound.leaf start member flat
    rcases IndexEntry.cell_of_mem_getMissingRegion (by simpa using missing) with
      ⟨virtual, -⟩ | absent
    · exact absurd (IndexService.isLeaf_false_iff.mp virtual) (not_not.mpr flat)
    · rw [Cell.managed, flags.1, flags.2, grid_apply, absent]
      rfl
  refine ((capped x).arrives_iff path member fits
    (fun missing => capped.due begins (by simpa using missing)) whole).trans ?_
  rw [or_comm, decide_eq_true_eq]
  apply or_congr_left
  constructor
  · rintro ⟨addr, above, below, different, parked⟩
    exact ⟨addr, above, below, (parked_iff flat wanted below node).mp ⟨different, parked⟩⟩
  · rintro ⟨addr, above, below, found⟩
    obtain ⟨different, parked⟩ := (parked_iff flat wanted below node).mpr found
    exact ⟨addr, above, below, different, parked⟩

/-- Where an allowance has arrived and is kept, records are sound and no element is managed below a
node that has parked it. -/
theorem kept_handedDown (capped : s.Capped k) {x : α} (sound : (overlay k).Sound (s.grid x)) :
    (overlay k).Sound (LayeredTree.keep (s.handedDown k start path region x).1
        ((overlay k).descend path start) (s.handedDown k start path region x).2) ∧
      (overlay k).Capped (LayeredTree.keep (s.handedDown k start path region x).1
        ((overlay k).descend path start) (s.handedDown k start path region x).2) := by
  constructor
  · refine (LayeredTree.Arriving.passDown id path ⟨sound.but _, fun notRoot recorded => ?_⟩
      member fits).keep
    rw [sound.edge _ member notRoot recorded, Bool.true_or]
  · have due : decide (x ∈ ((s.index start).getMissingRegion (.create (2 ^ k) start) region).1) =
        true → (s.grid x start).managed = true ∨ (overlay k).Bare (s.grid x) start :=
      fun missing => capped.due begins (by simpa using missing)
    obtain ⟨down, arrives⟩ := (capped x).passDown path member fits due
    exact down.keep arrives

omit member fits begins in
/-- What a requirement has become when its allowance is kept at the end of the path. -/
structure Kept (k : Nat) (s : State α V) (start : HierarchyAddress) (path : List Side)
    (region : Finset α) (t : State α V) (req : Requirement α) : Prop where
  /-- The region is the same. -/
  same : req.region = region
  /-- The allowance is part of it. -/
  allowance : req.allowance ⊆ region
  /-- The allowance is what has arrived. -/
  arrived : ∀ x ∈ region, x ∈ req.allowance ↔ (s.handedDown k start path region x).2 = true
  /-- What has arrived is kept. -/
  kept : ∀ x ∈ region, t.grid x = LayeredTree.keep (s.handedDown k start path region x).1
    ((overlay k).descend path start) (s.handedDown k start path region x).2
  /-- Other elements have not been touched. -/
  others : ∀ x, x ∉ region → t.grid x = s.grid x

omit begins in
/-- A task that is handed down to the end of its path. -/
theorem kept_task :
    let req := (s.getMissingRegions (2 ^ k) start ⟨region, ∅, .readWrite⟩).2
    let down := scheduleDown (2 ^ k) path s start req
    down.2.1 = (overlay k).descend path start ∧
      Kept k s start path region (down.1.addAllowance down.2.1 down.2.2) down.2.2 := by
  intro req down
  have spec : HandedDown k path s start req down :=
    scheduleDown_spec path s start req rfl (IndexEntry.getMissingRegion_subset _ _ region) member
      fits
  have mode : down.2.2.mode = .readWrite := spec.mode
  have passed (x : α) (wanted : x ∈ region) :
      down.1.grid x = (s.handedDown k start path region x).1 ∧
        decide (x ∈ down.2.2.allowance) = (s.handedDown k start path region x).2 :=
    Prod.mk.inj (spec.passed x wanted)
  refine ⟨spec.address, spec.region, spec.allowance, fun x wanted => ?_, fun x wanted => ?_,
    fun x unwanted => ?_⟩
  · rw [← (passed x wanted).2, decide_eq_true_eq]
  · rw [grid_addAllowance x _ _ mode, (passed x wanted).1, (passed x wanted).2, spec.address]
  · have barred : x ∉ down.2.2.allowance := fun found => unwanted (spec.allowance found)
    rw [grid_addAllowance x _ _ mode, spec.others x unwanted, LayeredTree.keep,
      decide_eq_false barred, Bool.or_false]
    exact Function.update_eq_self _ _

namespace Kept

variable {t : State α V} {req : Requirement α}

/-- The records are sound, and no element is managed below a node that has parked it. -/
theorem laws (keeps : Kept k s start path region t req) (sound : s.Sound k) (capped : s.Capped k) :
    t.Sound k ∧ t.Capped k := by
  constructor
  · intro x
    by_cases wanted : x ∈ region
    · rw [keeps.kept x wanted]
      exact (kept_handedDown member fits begins capped (sound x)).1
    · rw [keeps.others x wanted]
      exact sound x
  · intro x
    by_cases wanted : x ∈ region
    · rw [keeps.kept x wanted]
      exact (kept_handedDown member fits begins capped (sound x)).2
    · rw [keeps.others x wanted]
      exact capped x

omit begins in
/-- The end of the path has what it had and what has arrived. -/
theorem full (keeps : Kept k s start path region t req) {x : α} (wanted : x ∈ region) :
    x ∈ (t.index ((overlay k).descend path start)).full ↔
      x ∈ (s.index ((overlay k).descend path start)).full ∨
        (s.handedDown k start path region x).2 = true := by
  have held : (t.grid x ((overlay k).descend path start)).held =
      ((s.grid x ((overlay k).descend path start)).held ||
        (s.handedDown k start path region x).2) := by
    rw [keeps.kept x wanted, LayeredTree.keep, Function.update_self, handedDown,
      LayeredTree.passDown_end path member fits]
  rw [← Bool.coe_iff_coe] at held
  simpa using held

/-- An element that has not arrived is parked and on record as before. -/
theorem spared (keeps : Kept k s start path region t req) (capped : s.Capped k) {x : α}
    (wanted : x ∈ region) (late : (s.handedDown k start path region x).2 = false)
    (addr : HierarchyAddress) :
    (t.grid x addr).parked = (s.grid x addr).parked ∧
      (overlay k).recorded (t.grid x) addr = (overlay k).recorded (s.grid x) addr := by
  have same := (capped x).passDown_of_spared path member fits
    (fun missing => capped.due begins (by simpa using missing)) late
  have grid : t.grid x = (s.handedDown k start path region x).1 := by
    rw [keeps.kept x wanted, late, LayeredTree.keep, Bool.or_false]
    exact Function.update_eq_self _ _
  rw [grid]
  refine ⟨(same addr).1, ?_⟩
  obtain ⟨-, left, right⟩ := same ((overlay k).parent addr)
  unfold LayeredTree.recorded
  cases (overlay k).side addr with
  | left => exact left
  | right => exact right

end Kept

/-- A task whose allowance arrives at a leaf meets the assertions of its acquire exactly if all of
the region has arrived or is owned by the leaf, or none of it has arrived and nothing that is
missing is parked above the leaf. -/
theorem task_asserts_iff (sound : s.Sound k) (capped : s.Capped k) :
    (Action.task start path region).Asserts k s ↔ (Action.task start path region).Safe k s := by
  obtain ⟨address, keeps⟩ : _ ∧ Kept k s start path region _ _ := kept_task member fits
  obtain ⟨node, -, -⟩ := (overlay k).descend_spec path member fits
  simp only [Action.Asserts, Action.Safe]
  generalize scheduleDown (2 ^ k) path s start _ = arrived at address keeps ⊢
  rw [address] at keeps ⊢
  refine imp_congr_right fun low => ?_
  have arrives {x : α} (wanted : x ∈ region) :=
    handedDown_iff member fits begins capped (sound x) wanted low
  obtain ⟨sound', capped'⟩ := keeps.laws member fits begins sound capped
  rw [acquireAsserts_iff sound' capped' node low, keeps.same]
  apply or_congr
  · exact forall₂_congr fun x wanted =>
      (keeps.full member fits wanted).trans (or_congr_right (arrives wanted))
  · have nothing : arrived.2.2.allowance = ∅ ↔
        ∀ x ∈ region, ¬ s.Arrives k start ((overlay k).descend path start) region x := by
      rw [Finset.eq_empty_iff_forall_notMem]
      constructor
      · intro empty x wanted
        rw [← arrives wanted, ← keeps.arrived x wanted]
        exact empty x
      · intro nothing x found
        have wanted := keeps.allowance found
        exact nothing x wanted ((arrives wanted).mp ((keeps.arrived x wanted).mp found))
    rw [nothing]
    refine and_congr_right fun spared => ?_
    rw [claimable_iff node low, claimable_iff node low]
    refine forall_congr' fun x => ?_
    by_cases wanted : x ∈ region
    · have late : (s.handedDown k start path region x).2 = false := by
        simpa using (not_congr (arrives wanted)).mpr (spared x wanted)
      have same := keeps.spared member fits begins capped wanted late
      simp [keeps.full member fits wanted, late, same, -grid_apply]
    · simp [wanted]

end Task

end State

/-! ## Runs -/

/-- A step meets its assertions exactly if it is safe. -/
theorem Step.asserts_iff {s s' : State α V} {action : Action α} (sound : s.Sound k)
    (capped : s.Capped k) (step : Step k s action s') : action.Asserts k s ↔ action.Safe k s := by
  cases step with
  | acquire member low =>
    simp only [Action.Asserts, Action.Safe]
    rw [State.acquireAsserts_iff sound capped member low]
    constructor
    · rintro (inside | ⟨-, claimable⟩)
      · rw [State.claimable_iff member low, Finset.sdiff_eq_empty_iff_subset.mpr inside]
        exact fun x lacking => absurd lacking (Finset.notMem_empty x)
      · exact claimable
    · exact fun claimable => Or.inr ⟨rfl, claimable⟩
  | read => exact Iff.rfl
  | locate => exact Iff.rfl
  | task member fits begins => exact State.task_asserts_iff member fits begins sound capped

/-- In every run all assertions of acquires hold exactly if all steps are safe. -/
theorem asserts_run_iff {history : List (State α V × Action α)} {s : State α V}
    (run : (system α V k).Run history s) :
    System.Meets (fun s action => action.Asserts k s) history ↔
      System.Meets (fun s action => action.Safe k s) history := by
  have same : System.Meets (fun s action => action.Asserts k s ↔ action.Safe k s) history := by
    refine run.meets (I := fun s => s.Sound k ∧ s.Capped k)
      ⟨fun x => law_initial (fun _ => id) x, State.capped_initial⟩ ?_ ?_
    · exact fun inv step => ⟨Step.sound inv.1 step, Step.capped inv.2 step⟩
    · exact fun inv step => Step.asserts_iff inv.1 inv.2 step
  exact forall₂_congr same

/-- A task that ends at a leaf, whose sibling then acquires the same element. -/
theorem asserts_run_iff_two :
    System.Meets (fun s action => action.Asserts 1 s)
      [((State.initial.task 2 ⟨0, 1⟩ [.left] {0} : State Nat Unit), Action.acquire ⟨1, 0⟩ {0}),
        (State.initial, Action.task ⟨0, 1⟩ [.left] {0})] := by
  refine (asserts_run_iff (run_acquire _ _ (run_task _ _ _ .start ?_ ?_ ?_) ?_ ?_)).mpr ?_
  · decide
  · decide
  · exact Or.inl (by decide)
  · decide
  · decide
  · simp only [System.Meets, List.forall_mem_cons]
    refine ⟨fun addr above notRoot x found => ?_, fun _ => Or.inl fun x wanted => ?_, by simp⟩
    · have different : addr ≠ ⟨1, 0⟩ := by
        rintro rfl
        exact absurd (IndexEntry.mem_getManagedUnallocated.mp found).1 (by decide)
      exact absurd rfl ((above.parent_of_ne different).2.parent_of_ne notRoot).1
    · obtain rfl := Finset.mem_singleton.mp wanted
      exact Or.inr (Or.inr (by decide))

/-- On two localities an allowance arrives at a leaf that is missing something else, and on four
the root is asked for an element that it has on record for the child that asks. -/
theorem not_asserts :
    (¬ ∀ (history : List (State Nat Unit × Action Nat)) (s : State Nat Unit),
      (system Nat Unit 1).Run history s →
        System.Meets (fun s action => action.Asserts 1 s) history) ∧
    ¬ ∀ (history : List (State Nat Unit × Action Nat)) (s : State Nat Unit),
      (system Nat Unit 2).Run history s →
        System.Meets (fun s action => action.Asserts 2 s) history := by
  constructor
  · intro claim
    have acquired := run_acquire (k := 1) (α := Nat) (V := Unit) ⟨1, 0⟩ {0} .start (by decide)
      (by decide)
    have dispatched := run_task ⟨0, 1⟩ [.left] {0, 1} acquired (by decide) (by decide)
      (Or.inl (by decide))
    have asserts := claim _ _ dispatched _ List.mem_cons_self
    have allowance := (asserts (by decide) (by decide)).1
    exact absurd allowance (by decide)
  · intro claim
    have dispatched := run_task (k := 2) (α := Nat) (V := Unit) ⟨0, 2⟩ [.left] {0} .start
      (by decide) (by decide) (Or.inl (by decide))
    have acquired := run_acquire ⟨0, 0⟩ {0} dispatched (by decide) (by decide)
    have asserts := claim _ _ acquired _ List.mem_cons_self
    obtain ⟨-, -, -, climb⟩ := asserts (by decide)
    obtain ⟨-, -, -, ask⟩ := climb (by decide)
    have record := (ask (by decide)).2.2.1
    exact absurd record (by decide)

end AllScale
