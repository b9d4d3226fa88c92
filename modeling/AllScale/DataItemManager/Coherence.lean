import AllScale.DataItemManager.LookupTermination
import AllScale.DataItemManager.Transfers

/-!
# Data follow their owners

Requirements are acquired one after the other: the fragment of the leaf is resized, the
requirement is acquired, and what was acquired for writing is written. The fragment of the leaf
that owns an element always has the latest value of it, every leaf has memory for what it owns,
and an element that has ever been written has an owner. So the owner is the right source of
every copy, and it can always send what it is asked for.
-/

namespace AllScale

open TokenTree HierarchyAddress Transition

variable {α V : Type} [DecidableEq α] {k : Nat}

/-! ## Accesses -/

/-- A requirement is acquired at a leaf and, when it allows that, written. -/
inductive Access (α V : Type) where
  /-- A read-write requirement, and the writes that follow in their order. -/
  | readWrite (leaf : HierarchyAddress) (region : Finset α) (writes : List (α × V))
  /-- A read-only requirement. -/
  | readOnly (leaf : HierarchyAddress) (region : Finset α)

/-- The writes of an access. -/
def Access.writes : Access α V → List (α × V)
  | .readWrite _ _ writes => writes
  | .readOnly _ _ => []

/-- The values of elements after some writes. -/
def valuesAfter (writes : List (α × V)) (before : α → Option V) : α → Option V :=
  writes.foldl (fun value write => Function.update value write.1 (some write.2)) before

/-- The value of the most recent write of a run to an element. -/
def latest : List (State α V × Access α V) → α → Option V
  | [] => fun _ => none
  | taken :: earlier => valuesAfter taken.2.writes (latest earlier)

namespace State

/-- The requirement of a work item that is given no allowance: `add_allowance` resizes the
fragment, and the requirement is acquired. -/
def acquireRequirement (size fuel : Nat) (s : State α V) (leaf : HierarchyAddress)
    (req : Requirement α) : Option (State α V) :=
  let s := s.addAllowance leaf { req with allowance := ∅ }
  match req.mode with
  | .readWrite => some (s.acquireReadWrite size leaf req.region)
  | .readOnly => s.acquireReadOnly size fuel leaf req.region

/-- The writes of an application to the fragment of a locality. -/
def write (s : State α V) (rank : Nat) (writes : List (α × V)) : State α V :=
  writes.foldl (fun s write =>
    s.setItem rank { s.items rank with
      fragment := (s.items rank).fragment.write write.1 write.2 }) s

/-- Every leaf has memory for what it owns. -/
def Covers (k : Nat) (s : State α V) : Prop :=
  ∀ leaf, InNetwork (2 ^ k) leaf → leaf.isLeaf = true →
    (s.index leaf).full ⊆ (s.items leaf.rank).fragment.coveredRegion

end State

/-- The accesses in a network of `2 ^ k` localities. -/
inductive AccessStep (k : Nat) : State α V → Access α V → State α V → Prop
  | readWrite {s t : State α V} {leaf : HierarchyAddress} {region : Finset α}
      {writes : List (α × V)} {fuel : Nat} :
      InNetwork (2 ^ k) leaf → leaf.isLeaf = true → (∀ write ∈ writes, write.1 ∈ region) →
      s.acquireRequirement (2 ^ k) fuel leaf ⟨region, ∅, .readWrite⟩ = some t →
      AccessStep k s (.readWrite leaf region writes) (t.write leaf.rank writes)
  | readOnly {s t : State α V} {leaf : HierarchyAddress} {region : Finset α} {fuel : Nat} :
      InNetwork (2 ^ k) leaf → leaf.isLeaf = true →
      s.acquireRequirement (2 ^ k) fuel leaf ⟨region, ∅, .readOnly⟩ = some t →
      AccessStep k s (.readOnly leaf region) t

/-- Accesses to a data item, one after the other. -/
def accesses (α V : Type) [DecidableEq α] (k : Nat) : System (State α V) (Access α V) where
  start := .initial
  step := AccessStep k

/-- What holds after a region has been acquired at a leaf. -/
structure Acquired (k : Nat) (value : α → Option V) (s : State α V) (leaf : HierarchyAddress)
    (region : Finset α) : Prop where
  /-- The fragment has the latest value of every element of the region that has been written. -/
  holds : ∀ x ∈ region, ∀ v, value x = some v → (s.items leaf.rank).fragment.value x = some v
  /-- The fragment has memory for the region. -/
  memory : region ⊆ (s.items leaf.rank).fragment.coveredRegion
  /-- Every leaf has memory for what it owns. -/
  covers : s.Covers k

/-! ## Coherent states -/

/-- The owners have the latest values. -/
structure State.Coherent (k : Nat) (value : α → Option V) (s : State α V) : Prop where
  /-- The index is tidy. -/
  tidy : s.Tidy k
  /-- Every leaf has memory for what it owns. -/
  covers : s.Covers k
  /-- The fragment of the owner has the latest value. -/
  fresh : ∀ leaf x v, InNetwork (2 ^ k) leaf → leaf.isLeaf = true → x ∈ (s.index leaf).full →
    value x = some v → (s.items leaf.rank).fragment.value x = some v
  /-- What has been written is owned. -/
  owned : ∀ x v, value x = some v →
    ∃ leaf, InNetwork (2 ^ k) leaf ∧ leaf.isLeaf = true ∧ x ∈ (s.index leaf).full

/-- Two leaves of one rank are the same. -/
theorem eq_of_rank {first second : HierarchyAddress} (low : first.isLeaf = true)
    (low' : second.isLeaf = true) (same : first.rank = second.rank) : first = second := by
  rw [eq_of_isLeaf low, eq_of_isLeaf low', same]

namespace State.Coherent

variable {value : α → Option V} {s : State α V} {leaf : HierarchyAddress} {region : Finset α}

/-- The initial state is coherent with nothing written. -/
theorem initial : (State.initial : State α V).Coherent k fun _ => none where
  tidy := .initial
  covers _ _ _ _ inside := absurd inside (Finset.notMem_empty _)
  fresh _ _ _ _ _ inside := absurd inside (Finset.notMem_empty _)
  owned _ _ written := absurd written (by simp)

/-- Getting memory keeps a state coherent. -/
theorem grow {t : State α V} (coherent : s.Coherent k value) (same : t.index = s.index)
    (kept : ∀ rank, ∀ x ∈ (s.items rank).fragment.coveredRegion,
      x ∈ (t.items rank).fragment.coveredRegion ∧
        (t.items rank).fragment.value x = (s.items rank).fragment.value x) :
    t.Coherent k value := by
  have grid (x : α) : t.grid x = s.grid x := by
    funext addr
    rw [State.grid_apply, State.grid_apply, same]
  refine ⟨⟨fun x => grid x ▸ coherent.tidy.routed x, fun x addr => ?_, fun addr rank x => ?_⟩,
    fun leaf member low x full => ?_, fun leaf x v member low full written => ?_,
    fun x v written => ?_⟩
  · rw [grid]
    exact coherent.tidy.allocated x addr
  · rw [State.Owns, same]
    exact coherent.tidy.cached addr rank x
  · rw [same] at full
    exact (kept _ x (coherent.covers leaf member low full)).1
  · rw [same] at full
    rw [(kept _ x (coherent.covers leaf member low full)).2]
    exact coherent.fresh leaf x v member low full written
  · rw [same]
    exact coherent.owned x v written

/-- Resizing a fragment keeps a state coherent. -/
theorem resizeFragment (coherent : s.Coherent k value) (rank : Nat) (region : Finset α)
    (exclusive : Bool) :
    (s.resizeFragment rank region exclusive).Coherent k value ∧
      region ⊆ ((s.resizeFragment rank region exclusive).items rank).fragment.coveredRegion := by
  refine ⟨coherent.grow rfl fun other x covered => ?_, fun x inside => ?_⟩
  · simp only [State.resizeFragment, State.items_setItem]
    by_cases same : other = rank
    · subst same
      rw [Function.update_self]
      split
      · exact ⟨covered, rfl⟩
      · simp [Fragment.resize, covered]
    · rw [Function.update_of_ne same]
      exact ⟨covered, rfl⟩
  · simp only [State.resizeFragment, State.items_setItem, Function.update_self]
    split
    · rename_i enough
      exact enough inside
    · exact Finset.mem_union_right _ inside

/-- An allowance of nothing at a leaf keeps a state coherent and gets memory for the region. -/
theorem addAllowance (coherent : s.Coherent k value) (low : leaf.isLeaf = true)
    (req : Requirement α) :
    (s.addAllowance leaf { req with allowance := ∅ }).Coherent k value ∧
      req.region ⊆ ((s.addAllowance leaf { req with allowance := ∅ }).items
        leaf.rank).fragment.coveredRegion := by
  obtain ⟨region, allowance, mode⟩ := req
  cases mode with
  | readOnly =>
    simp only [State.addAllowance, if_pos low]
    exact coherent.resizeFragment leaf.rank region false
  | readWrite =>
    simp only [State.addAllowance, if_pos low]
    have same : (s.setEntry leaf ((s.index leaf).addFull ∅)).Coherent k value :=
      coherent.grow (Function.update_eq_self leaf s.index) fun _ _ covered => ⟨covered, rfl⟩
    exact same.resizeFragment leaf.rank region true

/-! ## Acquisitions -/

/-- Which leaf has which element missing taken from it. -/
theorem ousted_iff (coherent : s.Coherent k value) (member : InNetwork (2 ^ k) leaf)
    (low : leaf.isLeaf = true) {x : α} (absent : x ∉ (s.index leaf).full)
    {owner : HierarchyAddress} :
    (overlay k).ousted (s.grid x) leaf = some owner ↔
      InNetwork (2 ^ k) owner ∧ owner.isLeaf = true ∧ x ∈ (s.index owner).full := by
  rw [(coherent.tidy.routed x).ousted_iff member (IndexService.isLeaf_iff.mp low)
    (by simpa using absent)]
  refine and_congr_right fun _ => and_congr (IndexService.isLeaf_iff (k := k)).symm ?_
  simp

/-- Which leaf owns what after a read-write acquire. -/
structure Handover (k : Nat) (s t : State α V) (leaf : HierarchyAddress) (region : Finset α) :
    Prop where
  /-- The leaf owns the region. -/
  acquired : region ⊆ (t.index leaf).full
  /-- Outside of the region nothing changes its owner. -/
  elsewhere : ∀ x ∉ region, ∀ addr, x ∈ (t.index addr).full ↔ x ∈ (s.index addr).full
  /-- What another leaf owns is outside of the region. -/
  others : ∀ owner x, InNetwork (2 ^ k) owner → owner.isLeaf = true → owner ≠ leaf →
    x ∈ (t.index owner).full → x ∉ region

/-- A read-write acquire hands the region over to the leaf. -/
theorem handover (coherent : s.Coherent k value) (member : InNetwork (2 ^ k) leaf)
    (low : leaf.isLeaf = true) (region : Finset α) :
    Handover k s (s.acquireReadWrite (2 ^ k) leaf region) leaf region := by
  have tidy : (s.acquireReadWrite (2 ^ k) leaf region).Tidy k :=
    Step.tidy coherent.tidy (show Action.Delivered k s (.acquire leaf region) from trivial)
      (Step.acquire member low)
  have grid (x : α) := State.grid_acquireReadWrite x s leaf region member
  have acquired : region ⊆ ((s.acquireReadWrite (2 ^ k) leaf region).index leaf).full := by
    intro x wanted
    have taken := LayeredTree.held_take (g := s.grid x) (T := overlay k) member
    have cell := congrFun (grid x) leaf
    rw [if_pos wanted] at cell
    rw [← cell] at taken
    simpa using taken
  refine ⟨acquired, fun x outside addr => ?_, fun owner x node leafy different full wanted => ?_⟩
  · have cell := congrArg Cell.held (congrFun (grid x) addr)
    rw [if_neg outside] at cell
    simpa using cell
  · have owned := acquired wanted
    exact different (tidy.routed.exclusive x owner leaf node leafy member low full owned)

/-- The transfers of a read-write acquire move what is missing, from those who own it. -/
abbrev Brought (k : Nat) (s t : State α V) (leaf : HierarchyAddress) (region : Finset α) : Prop :=
  Moved s t leaf.rank true fun rank x =>
    x ∈ region \ (s.index leaf).full ∧ ∃ owner, owner.rank = rank ∧ InNetwork (2 ^ k) owner ∧
      owner.isLeaf = true ∧ x ∈ (s.index owner).full

/-- What the cascade of an acquire lists, and what its transfers move. -/
theorem acquire_moved (coherent : s.Coherent k value) (member : InNetwork (2 ^ k) leaf)
    (low : leaf.isLeaf = true) (nonempty : region \ (s.index leaf).full ≠ ∅) :
    Brought k s (s.acquireReadWrite (2 ^ k) leaf region) leaf region := by
  have absent {x : α} (missing : x ∈ region \ (s.index leaf).full) : x ∉ (s.index leaf).full :=
    (Finset.mem_sdiff.mp missing).2
  have collected := State.collected_acquireOwnership (k := k)
    (s.updateCaches (2 ^ k) (region \ (s.index leaf).full) leaf.rank) leaf
    (region \ (s.index leaf).full) member fun x missing owner ousted => by
      simp only [State.grid_updateCaches] at ousted
      obtain ⟨node, leafy, full⟩ := (coherent.ousted_iff member low (absent missing)).mp ousted
      exact coherent.covers owner node leafy full
  rw [State.acquireReadWrite, if_pos nonempty]
  dsimp only
  generalize State.acquireOwnership (2 ^ k)
    (s.updateCaches (2 ^ k) (region \ (s.index leaf).full) leaf.rank) leaf
    (region \ (s.index leaf).full) = result at collected ⊢
  have listed (rank : Nat) (x : α) : (∃ part, (rank, part) ∈ result.1.regions ∧ x ∈ part) ↔
      x ∈ region \ (s.index leaf).full ∧ ∃ owner, owner.rank = rank ∧ InNetwork (2 ^ k) owner ∧
        owner.isLeaf = true ∧ x ∈ (s.index owner).full := by
    refine (collected.listed rank x).trans (and_congr_right fun missing => ?_)
    simp only [State.grid_updateCaches]
    exact exists_congr fun owner => and_congr_right fun _ =>
      coherent.ousted_iff member low (absent missing)
  have same (rank : Nat) : (result.2.items rank).fragment = (s.items rank).fragment :=
    collected.fragments rank
  have moved := State.moved_transfers leaf.rank true result.1.regions result.2 result.1.nodup
    (fun part found _ x inside => by
      obtain ⟨-, owner, rank, node, leafy, full⟩ := (listed part.1 x).mp ⟨_, found, inside⟩
      rw [same, ← rank]
      exact coherent.covers owner node leafy full)
    (fun first found second found' x inside inside' => by
      obtain ⟨-, owner, rank, node, leafy, full⟩ := (listed first.1 x).mp ⟨_, found, inside⟩
      obtain ⟨-, owner', rank', node', leafy', full'⟩ := (listed second.1 x).mp ⟨_, found', inside'⟩
      rw [← rank, ← rank', coherent.tidy.routed.exclusive x owner owner' node leafy node' leafy'
        full full'])
  simp only [listed] at moved
  refine ⟨?_, fun rank x other found => ?_, fun x unlisted => ?_,
    fun rank x other found unlisted => ?_, fun copies rank other => ?_⟩
  · rw [moved.memory, same]
  · rw [moved.received rank x other found, same]
  · rw [moved.unchanged x unlisted, same]
  · rw [← same] at found
    rw [← same]
    exact moved.kept rank x other found unlisted
  · rw [moved.copied copies rank other, same]

/-- What another leaf owns after the acquire stays in its fragment. -/
theorem kept_of_handover {t : State α V} (coherent : s.Coherent k value)
    (low : leaf.isLeaf = true) (handover : Handover k s t leaf region)
    (moved : Brought k s t leaf region) {owner : HierarchyAddress} {x : α}
    (node : InNetwork (2 ^ k) owner) (leafy : owner.isLeaf = true) (different : owner ≠ leaf)
    (full : x ∈ (t.index owner).full) :
    x ∈ (s.index owner).full ∧ x ∈ (t.items owner.rank).fragment.coveredRegion ∧
      (t.items owner.rank).fragment.value x = (s.items owner.rank).fragment.value x := by
  have outside := handover.others owner x node leafy different full
  have before := (handover.elsewhere x outside owner).mp full
  have away : owner.rank ≠ leaf.rank := fun same => different (eq_of_rank leafy low same)
  exact ⟨before, moved.kept owner.rank x away (coherent.covers owner node leafy before)
    fun listed => outside (Finset.mem_sdiff.mp listed.1).1⟩

/-- The leaf that acquires has the latest value of everything it owns afterwards. -/
theorem fresh_of_handover {t : State α V} (coherent : s.Coherent k value)
    (member : InNetwork (2 ^ k) leaf) (low : leaf.isLeaf = true)
    (handover : Handover k s t leaf region) (moved : Brought k s t leaf region) {x : α} {v : V}
    (full : x ∈ (t.index leaf).full) (written : value x = some v) :
    (t.items leaf.rank).fragment.value x = some v := by
  by_cases missing : x ∈ region \ (s.index leaf).full
  · -- the value comes from the previous owner
    obtain ⟨source, place, flat, held⟩ := coherent.owned x v written
    have other : source.rank ≠ leaf.rank := fun h =>
      (Finset.mem_sdiff.mp missing).2 (eq_of_rank flat low h ▸ held)
    rw [moved.received source.rank x other ⟨missing, source, rfl, place, flat, held⟩]
    exact coherent.fresh source x v place flat held written
  · rw [moved.unchanged x fun _ _ listed => missing listed.1]
    refine coherent.fresh leaf x v member low ?_ written
    by_cases wanted : x ∈ region
    · by_contra absent
      exact missing (Finset.mem_sdiff.mpr ⟨wanted, absent⟩)
    · exact (handover.elsewhere x wanted leaf).mp full

/-- A read-write acquire at a leaf with memory for the region keeps a state coherent, and the leaf
owns the region afterwards. -/
theorem acquireReadWrite (coherent : s.Coherent k value) (member : InNetwork (2 ^ k) leaf)
    (low : leaf.isLeaf = true)
    (memory : region ⊆ (s.items leaf.rank).fragment.coveredRegion) :
    (s.acquireReadWrite (2 ^ k) leaf region).Coherent k value ∧
      region ⊆ ((s.acquireReadWrite (2 ^ k) leaf region).index leaf).full ∧
      region ⊆
        ((s.acquireReadWrite (2 ^ k) leaf region).items leaf.rank).fragment.coveredRegion := by
  by_cases empty : region \ (s.index leaf).full = ∅
  · have same : s.acquireReadWrite (2 ^ k) leaf region = s := by
      rw [State.acquireReadWrite, if_neg (not_not.mpr empty)]
    rw [same]
    exact ⟨coherent, Finset.sdiff_eq_empty_iff_subset.mp empty, memory⟩
  have moved := coherent.acquire_moved member low empty
  have handover := coherent.handover member low region
  have tidy : (s.acquireReadWrite (2 ^ k) leaf region).Tidy k :=
    Step.tidy coherent.tidy (show Action.Delivered k s (.acquire leaf region) from trivial)
      (Step.acquire member low)
  generalize s.acquireReadWrite (2 ^ k) leaf region = t at moved handover tidy ⊢
  refine ⟨⟨tidy, fun owner node leafy x full => ?_, fun owner x v node leafy full written => ?_,
    fun x v written => ?_⟩, handover.acquired, moved.memory ▸ memory⟩
  · by_cases same : owner = leaf
    · subst same
      rw [moved.memory]
      by_cases wanted : x ∈ region
      · exact memory wanted
      · exact coherent.covers owner node leafy ((handover.elsewhere x wanted owner).mp full)
    · exact (coherent.kept_of_handover low handover moved node leafy same full).2.1
  · by_cases same : owner = leaf
    · subst same
      exact coherent.fresh_of_handover member low handover moved full written
    · obtain ⟨before, -, value⟩ :=
        coherent.kept_of_handover low handover moved node leafy same full
      rw [value]
      exact coherent.fresh owner x v node leafy before written
  · by_cases wanted : x ∈ region
    · exact ⟨leaf, member, low, handover.acquired wanted⟩
    · obtain ⟨owner, node, leafy, full⟩ := coherent.owned x v written
      exact ⟨owner, node, leafy, (handover.elsewhere x wanted owner).mpr full⟩

/-- A read-only acquire copies its region from the leaves that own it. -/
theorem read_moved (coherent : s.Coherent k value) (member : InNetwork (2 ^ k) leaf) {fuel : Nat}
    {t : State α V} (returned : s.acquireReadOnly (2 ^ k) fuel leaf region = some t) :
    ∃ listed : Nat → α → Prop, Moved s t leaf.rank false listed ∧
      (∀ addr x, InNetwork (2 ^ k) addr → addr.isLeaf = true → x ∈ (s.index addr).full →
        (x ∈ region → listed addr.rank x) ∧ ∀ key, listed key x → key = addr.rank) := by
  simp only [State.acquireReadOnly, Option.bind_eq_bind, Option.bind_eq_some_iff] at returned
  obtain ⟨⟨info, u⟩, located, result⟩ := returned
  have items := (State.locate_caches (k := k) member located).caches.items
  have listed := (coherent.tidy.cached.locate member located).2
  have owner (addr : HierarchyAddress) (x : α) (node : InNetwork (2 ^ k) addr)
      (leafy : addr.isLeaf = true) (full : x ∈ (s.index addr).full) (key : Nat)
      (found : info.Lists key x) : key = addr.rank := by
    obtain ⟨-, place, full'⟩ := listed key x found
    exact congrArg rank (coherent.tidy.routed.exclusive x ⟨key, 0⟩ addr place rfl node leafy full'
      full)
  have moved := State.moved_transfers leaf.rank false info.regions u info.nodup
    (fun part found _ x inside => by
      obtain ⟨-, place, full⟩ := listed part.1 x ⟨_, found, inside⟩
      rw [items]
      exact coherent.covers ⟨part.1, 0⟩ place rfl full)
    (fun first found second found' x inside inside' => by
      obtain ⟨-, place, full⟩ := listed second.1 x ⟨_, found', inside'⟩
      exact owner ⟨second.1, 0⟩ x place rfl full first.1 ⟨_, found, inside⟩)
  rw [Option.some.inj result] at moved
  refine ⟨info.Lists, moved.of_items items, fun addr x node leafy full => ⟨fun wanted => ?_,
    owner addr x node leafy full⟩⟩
  obtain ⟨key, found⟩ := State.locate_complete member (coherent.tidy.routed x) node
    (IndexService.isLeaf_iff.mp leafy) full wanted located
  exact owner addr x node leafy full key found ▸ found

/-- A read-only acquire at a leaf with memory for the region keeps a state coherent, and brings
the latest values of the region to the leaf. -/
theorem acquireReadOnly (coherent : s.Coherent k value) (member : InNetwork (2 ^ k) leaf)
    (low : leaf.isLeaf = true) {fuel : Nat} {t : State α V}
    (returned : s.acquireReadOnly (2 ^ k) fuel leaf region = some t) :
    t.Coherent k value ∧
      (∀ x ∈ region, ∀ v, value x = some v → (t.items leaf.rank).fragment.value x = some v) ∧
      (t.items leaf.rank).fragment.coveredRegion = (s.items leaf.rank).fragment.coveredRegion := by
  have tidy : t.Tidy k :=
    Step.tidy coherent.tidy (show Action.Delivered k s (.read leaf region) from trivial)
      (Step.read member low returned)
  have same {x : α} {addr : HierarchyAddress} :
      x ∈ (t.index addr).full ↔ x ∈ (s.index addr).full := by
    have cell := congrArg Cell.held (congrFun (State.grid_acquireReadOnly x member returned) addr)
    simpa using cell
  obtain ⟨listed, moved, sources⟩ := coherent.read_moved member returned
  have target {x : α} {v : V} (full : x ∈ (s.index leaf).full) (written : value x = some v) :
      (t.items leaf.rank).fragment.value x = some v := by
    have own := (sources leaf x member low full).2
    rw [moved.unchanged x fun key other found => other (own key found)]
    exact coherent.fresh leaf x v member low full written
  refine ⟨⟨tidy, fun addr node leafy x full => ?_, fun addr x v node leafy full written => ?_,
    fun x v written => ?_⟩, fun x wanted v written => ?_, moved.memory⟩
  · have before := coherent.covers addr node leafy (same.mp full)
    by_cases here : addr.rank = leaf.rank
    · rw [here] at before ⊢
      rwa [moved.memory]
    · rwa [moved.copied rfl _ here]
  · by_cases here : addr = leaf
    · subst here
      exact target (same.mp full) written
    · rw [moved.copied rfl _ (fun h => here (eq_of_rank leafy low h))]
      exact coherent.fresh addr x v node leafy (same.mp full) written
  · obtain ⟨addr, node, leafy, full⟩ := coherent.owned x v written
    exact ⟨addr, node, leafy, same.mpr full⟩
  · obtain ⟨addr, node, leafy, full⟩ := coherent.owned x v written
    by_cases here : addr = leaf
    · subst here
      exact target full written
    · have found := (sources addr x node leafy full).1 wanted
      rw [moved.received addr.rank x (fun h => here (eq_of_rank leafy low h)) found]
      exact coherent.fresh addr x v node leafy full written

/-! ## Writes -/

/-- Writing an element at the leaf that owns it keeps a state coherent. -/
theorem write_one (coherent : s.Coherent k value) (member : InNetwork (2 ^ k) leaf)
    (low : leaf.isLeaf = true) {x : α} (full : x ∈ (s.index leaf).full) (v : V) :
    (s.write leaf.rank [(x, v)]).Coherent k (Function.update value x (some v)) := by
  have items (rank : Nat) : ((s.write leaf.rank [(x, v)]).items rank).fragment =
      if rank = leaf.rank then (s.items rank).fragment.write x v else (s.items rank).fragment := by
    by_cases same : rank = leaf.rank
    · subst same
      simp [State.write]
    · simp [State.write, same]
  refine ⟨⟨coherent.tidy.routed, coherent.tidy.allocated, coherent.tidy.cached⟩,
    fun addr node leafy y inside => ?_, fun addr y w node leafy inside written => ?_,
    fun y w written => ?_⟩
  · rw [items, apply_ite Fragment.coveredRegion]
    have before := coherent.covers addr node leafy inside
    split <;> exact before
  · by_cases same : y = x
    · -- the writing leaf is the owner
      subst same
      rw [Function.update_self] at written
      obtain rfl := coherent.tidy.routed.exclusive y addr leaf node leafy member low inside full
      rw [items, if_pos rfl, Fragment.value_write, if_pos rfl, written]
    · rw [Function.update_of_ne same] at written
      have before := coherent.fresh addr y w node leafy inside written
      rw [items, apply_ite Fragment.value]
      split
      · rwa [Fragment.value_write, if_neg same]
      · exact before
  · by_cases same : y = x
    · exact ⟨leaf, member, low, same ▸ full⟩
    · rw [Function.update_of_ne same] at written
      exact coherent.owned y w written

/-- Writing elements at the leaf that owns them keeps a state coherent. -/
theorem write (writes : List (α × V)) (coherent : s.Coherent k value)
    (member : InNetwork (2 ^ k) leaf) (low : leaf.isLeaf = true)
    (full : ∀ write ∈ writes, write.1 ∈ (s.index leaf).full) :
    (s.write leaf.rank writes).Coherent k (valuesAfter writes value) := by
  induction writes generalizing s value with
  | nil => exact coherent
  | cons first rest ih =>
    exact ih (coherent.write_one member low (full first List.mem_cons_self) first.2)
      fun write found => full write (List.mem_cons_of_mem _ found)

/-! ## Runs -/

/-- A requirement that is acquired at a leaf leaves a coherent state with the latest values of its
region at the leaf; a leaf that may write owns the region. -/
theorem acquireRequirement (coherent : s.Coherent k value) (member : InNetwork (2 ^ k) leaf)
    (low : leaf.isLeaf = true) {req : Requirement α} {fuel : Nat} {t : State α V}
    (returned : s.acquireRequirement (2 ^ k) fuel leaf req = some t) :
    t.Coherent k value ∧ Acquired k value t leaf req.region ∧
      (req.mode = .readWrite → req.region ⊆ (t.index leaf).full) := by
  obtain ⟨ready, memory⟩ := coherent.addAllowance low req
  obtain ⟨region, allowance, mode⟩ := req
  cases mode with
  | readWrite =>
    obtain ⟨after, owned, enough⟩ := ready.acquireReadWrite member low memory
    rw [Option.some.inj returned] at after owned enough
    exact ⟨after, ⟨fun x wanted v written => after.fresh leaf x v member low (owned wanted) written,
      enough, after.covers⟩, fun _ => owned⟩
  | readOnly =>
    obtain ⟨after, holds, same⟩ := ready.acquireReadOnly member low returned
    exact ⟨after, ⟨holds, same ▸ memory, after.covers⟩, fun other => AccessMode.noConfusion other⟩

/-- A requirement can be acquired in every coherent state. -/
theorem acquireRequirement_returns (coherent : s.Coherent k value)
    (member : InNetwork (2 ^ k) leaf) (low : leaf.isLeaf = true) (req : Requirement α) :
    ∃ fuel t, s.acquireRequirement (2 ^ k) fuel leaf req = some t := by
  obtain ⟨ready, -⟩ := coherent.addAllowance low req
  obtain ⟨region, allowance, mode⟩ := req
  cases mode with
  | readWrite => exact ⟨0, _, rfl⟩
  | readOnly =>
    obtain ⟨fuel, result, located⟩ := ready.tidy.lookupsEnd leaf region member
    refine ⟨fuel, result.2.transfers leaf.rank false result.1.regions, ?_⟩
    simp only [State.acquireRequirement, State.acquireReadOnly, located, Option.bind_eq_bind,
      Option.bind_some]

end State.Coherent

/-- Every access keeps the states of a run coherent with its latest writes. -/
theorem AccessStep.coherent {value : α → Option V} {s s' : State α V} {access : Access α V}
    (coherent : s.Coherent k value) (step : AccessStep k s access s') :
    s'.Coherent k (valuesAfter access.writes value) := by
  cases step with
  | readWrite member low inside returned =>
    obtain ⟨after, -, owned⟩ := coherent.acquireRequirement member low returned
    exact after.write _ member low fun write found => owned rfl (inside write found)
  | readOnly member low returned =>
    exact (coherent.acquireRequirement member low returned).1

/-- The states of a run are coherent with its latest writes. -/
theorem coherent_run {history : List (State α V × Access α V)} {s : State α V}
    (run : (accesses α V k).Run history s) : s.Coherent k (latest history) := by
  induction run with
  | start => exact .initial
  | step _ step ih => exact AccessStep.coherent ih step

/-- In every run, every leaf has memory for what it owns, every requirement can be acquired, and
once it is acquired the leaf has the latest values of its region. -/
theorem acquired_of_run {history : List (State α V × Access α V)} {s : State α V}
    (run : (accesses α V k).Run history s) :
    s.Covers k ∧ ∀ leaf req, InNetwork (2 ^ k) leaf → leaf.isLeaf = true →
      (∃ fuel t, s.acquireRequirement (2 ^ k) fuel leaf req = some t) ∧
      ∀ fuel t, s.acquireRequirement (2 ^ k) fuel leaf req = some t →
        Acquired k (latest history) t leaf req.region := by
  have coherent := coherent_run run
  exact ⟨coherent.covers, fun leaf req member low =>
    ⟨coherent.acquireRequirement_returns member low req, fun fuel t returned =>
      (coherent.acquireRequirement member low returned).2.1⟩⟩

/-- One locality writes an element, another reads it. -/
theorem acquired_of_run_two : ∃ s t : State Nat Nat,
    (State.initial.acquireRequirement 2 0 ⟨0, 0⟩ ⟨{0}, ∅, .readWrite⟩ = some s) ∧
    ((s.write 0 [(0, 7)]).acquireRequirement 2 4 ⟨1, 0⟩ ⟨{0}, ∅, .readOnly⟩ = some t) ∧
    Acquired 1 (latest [(State.initial, Access.readWrite ⟨0, 0⟩ {0} [(0, 7)])]) t ⟨1, 0⟩ {0} := by
  obtain ⟨s, acquired⟩ : ∃ s, (State.initial : State Nat Nat).acquireRequirement 2 0 ⟨0, 0⟩
      ⟨{0}, ∅, .readWrite⟩ = some s := ⟨_, rfl⟩
  have returns : ((s.write 0 [(0, 7)]).acquireRequirement 2 4 ⟨1, 0⟩
      ⟨{0}, ∅, .readOnly⟩).isSome = true := by
    rw [← Option.some.inj acquired]
    decide
  obtain ⟨t, read⟩ := Option.isSome_iff_exists.mp returns
  refine ⟨s, t, acquired, read, ((acquired_of_run (k := 1) (.step .start
    (AccessStep.readWrite ?_ ?_ ?_ acquired))).2 ⟨1, 0⟩ ⟨{0}, ∅, .readOnly⟩ ?_ ?_).2 4 t read⟩
  · decide
  · decide
  · simp
  · decide
  · decide

end AllScale
