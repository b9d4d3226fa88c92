import AllScale.DataItemManager.Scheduling

/-!
# Tasks that may not leave their locality

A task that may not leave its locality looks up its missing region at its own leaf, which adds
it to `full_` of the leaf as an allowance. The acquire that follows finds nothing missing any
more, so no other entry is told: the task transfers nothing. What a plain acquire of the region
achieves holds afterwards only where it held before.
-/

namespace AllScale

open TokenTree HierarchyAddress Transition

variable {α V : Type} [DecidableEq α] {k : Nat}

namespace State

/-- The effect that a transfer of a region to a leaf has: no other leaf that had an element of it
before has it still, and the records lead from the root to the leaf for all of it. -/
structure Transferred (k : Nat) (before after : State α V) (leaf : HierarchyAddress)
    (region : Finset α) : Prop where
  /-- Every other owner has given the region up. -/
  removed : ∀ x ∈ region, ∀ other, InNetwork (2 ^ k) other → other.isLeaf = true → other ≠ leaf →
    x ∈ (before.index other).full → x ∉ (after.index other).full
  /-- The records lead to the leaf. -/
  leads : ∀ x ∈ region, (overlay k).trail (after.grid x) (getRootOfNetworkSize (2 ^ k)).layer
    (getRootOfNetworkSize (2 ^ k)) = some leaf

/-- A leaf owns a region alone, and every node from the leaf up to the root has it on record at
its parent. -/
structure OwnsAlone (k : Nat) (s : State α V) (leaf : HierarchyAddress) (region : Finset α) :
    Prop where
  /-- No other leaf owns an element of the region. -/
  alone : ∀ x ∈ region, ∀ other, InNetwork (2 ^ k) other → other.isLeaf = true → other ≠ leaf →
    x ∉ (s.index other).full
  /-- The region is on record for the leaf and for all its ancestors. -/
  recorded : ∀ x ∈ region, ∀ addr, (overlay k).Above addr leaf →
    addr ≠ getRootOfNetworkSize (2 ^ k) → (overlay k).recorded (s.grid x) addr = true

/-- At a leaf everything that is not in `full_` is missing. -/
theorem getMissingRegion_leaf {size : Nat} {leaf : HierarchyAddress} (low : leaf.isLeaf = true)
    (entry : IndexEntry α) (region : Finset α) :
    (entry.getMissingRegion (.create size leaf) region).1 = region \ entry.full := by
  have unmanaged : entry.getManagedUnallocated (.create size leaf) region = ∅ := if_pos low
  rw [IndexEntry.getMissingRegion, unmanaged]
  by_cases empty : region = ∅
  · simp [empty]
  · simp [empty]

/-- A local task adds its region to `full_` of its leaf and changes no other entry. -/
theorem index_localTask {size : Nat} {leaf : HierarchyAddress} (low : leaf.isLeaf = true)
    (s : State α V) (region : Finset α) :
    (s.localTask size leaf region).index = Function.update s.index leaf
      { s.index leaf with full := (s.index leaf).full ∪ region } := by
  have entry : (s.index leaf).addFull (region \ (s.index leaf).full) =
      { s.index leaf with full := (s.index leaf).full ∪ region } := by
    rw [IndexEntry.addFull]
    split
    · rename_i none
      rw [Finset.union_eq_left.mpr (Finset.sdiff_eq_empty_iff_subset.mp none)]
    · rw [Finset.union_sdiff_self_eq_union]
  have missing : region \ ((s.index leaf).full ∪ region) = ∅ :=
    Finset.sdiff_eq_empty_iff_subset.mpr Finset.subset_union_right
  simp only [localTask, getMissingRegions, scheduleLocal, addAllowance, if_pos low,
    getMissingRegion_leaf low, acquireReadWrite, resizeFragment, entry, index_setItem,
    index_setEntry, Function.update_self, missing, ne_eq, not_true_eq_false, ↓reduceIte]

/-- A local task changes no record. -/
theorem recorded_localTask {leaf addr : HierarchyAddress} (low : leaf.isLeaf = true)
    (s : State α V) (region : Finset α) (x : α) :
    (overlay k).recorded ((s.localTask (2 ^ k) leaf region).grid x) addr =
      (overlay k).recorded (s.grid x) addr := by
  rw [LayeredTree.recorded, LayeredTree.recorded, grid_apply, index_localTask low, grid_apply]
  by_cases above : (overlay k).parent addr = leaf
  · rw [above, Function.update_self]
    cases (overlay k).side addr <;> rfl
  · rw [Function.update_of_ne above]

/-- In a state with sound records a local task has the effect of a transfer exactly if there is
nothing to transfer. -/
theorem Sound.transferred_localTask_iff {s : State α V} (sound : s.Sound k)
    {leaf : HierarchyAddress} (member : InNetwork (2 ^ k) leaf) (low : leaf.isLeaf = true)
    (region : Finset α) :
    Transferred k s (s.localTask (2 ^ k) leaf region) leaf region ↔ s.OwnsAlone k leaf region := by
  have flat : (overlay k).layer leaf = 0 := IndexService.isLeaf_iff.mp low
  have others {other : HierarchyAddress} (different : other ≠ leaf) :
      (s.localTask (2 ^ k) leaf region).index other = s.index other := by
    rw [index_localTask low, Function.update_of_ne different]
  have disjoint (x : α) : ∀ n, (overlay k).Mem n →
      ((s.localTask (2 ^ k) leaf region).grid x n).left = true →
      ((s.localTask (2 ^ k) leaf region).grid x n).right = false := by
    intro n node
    by_cases same : n = leaf
    · have flags := (sound x).leaf leaf member flat
      rw [same, grid_apply, index_localTask low, Function.update_self]
      exact fun _ => flags.2
    · rw [grid_apply, others same]
      exact (sound x).disjoint n node
  have trail (x : α) := LayeredTree.trail_root_iff (T := overlay k) (disjoint x) member flat
  constructor
  · rintro ⟨removed, leads⟩
    refine ⟨fun x wanted other node leafy different full => ?_,
      fun x wanted addr above notRoot => ?_⟩
    · have gone := removed x wanted other node leafy different full
      rw [others different] at gone
      exact gone full
    · rw [← recorded_localTask low s region x]
      exact (trail x).mp (leads x wanted) addr above notRoot
  · rintro ⟨alone, recorded⟩
    refine ⟨fun x wanted other node leafy different full =>
      absurd full (alone x wanted other node leafy different), fun x wanted => (trail x).mpr ?_⟩
    intro addr above notRoot
    rw [recorded_localTask low]
    exact recorded x wanted addr above notRoot

/-- In a state with exact records a leaf owns a region alone exactly if it lacks nothing of it or
there is no other leaf. -/
theorem Routed.ownsAlone_iff {s : State α V} (routed : s.Routed k) {leaf : HierarchyAddress}
    (member : InNetwork (2 ^ k) leaf) (low : leaf.isLeaf = true) (region : Finset α) :
    s.OwnsAlone k leaf region ↔
      leaf = getRootOfNetworkSize (2 ^ k) ∨ region ⊆ (s.index leaf).full := by
  have flat : (overlay k).layer leaf = 0 := IndexService.isLeaf_iff.mp low
  constructor
  · rintro ⟨-, recorded⟩
    by_cases isRoot : leaf = getRootOfNetworkSize (2 ^ k)
    · exact Or.inl isRoot
    · refine Or.inr fun x wanted => ?_
      have managed := (routed x).edge leaf member isRoot
      have flags := (routed x).leaf leaf member flat
      rw [recorded x wanted leaf (.refl _) isRoot, Cell.managed, flags.1, flags.2, Bool.or_false,
        Bool.or_false] at managed
      simpa using managed.symm
  · rintro (isRoot | owned)
    · have lowest : (overlay k).layer (overlay k).root = 0 := by
        rw [show (overlay k).root = leaf from isRoot.symm]
        exact flat
      have only {addr : HierarchyAddress} (node : InNetwork (2 ^ k) addr) : addr = leaf :=
        ((overlay k).eq_root_of_le node (by omega)).trans isRoot.symm
      exact ⟨fun x _ other node _ different => absurd (only node) different,
        fun x _ addr above notRoot => absurd ((only (above.mem member)).trans isRoot) notRoot⟩
    · refine ⟨fun x wanted other node leafy different full => ?_,
        fun x wanted addr above notRoot => ?_⟩
      · exact different (routed.exclusive x other leaf node leafy member low full (owned wanted))
      · have held : (s.grid x leaf).held = true := by simpa using owned wanted
        rw [(routed x).edge addr (above.mem member) notRoot]
        exact ((routed x).trail_eq member flat held above).1

/-- A plain acquire that can collect what it lacks has the effect of a transfer. -/
theorem Routed.transferred_acquire {s : State α V} (routed : s.Routed k)
    {leaf : HierarchyAddress} (member : InNetwork (2 ^ k) leaf) (low : leaf.isLeaf = true)
    {region : Finset α} (collectable : s.Collectable k leaf region) :
    Transferred k s (s.acquireReadWrite (2 ^ k) leaf region) leaf region := by
  have after : (s.acquireReadWrite (2 ^ k) leaf region).Routed k :=
    Step.routed routed (show Action.Collectable k s (.acquire leaf region) from collectable)
      (Step.acquire member low)
  have flat : (overlay k).layer leaf = 0 := IndexService.isLeaf_iff.mp low
  have owned (x : α) (wanted : x ∈ region) :
      ((s.acquireReadWrite (2 ^ k) leaf region).grid x leaf).held = true := by
    rw [grid_acquireReadWrite x s leaf region member, if_pos wanted]
    exact LayeredTree.held_take member
  refine ⟨fun x wanted other node leafy different _ full => different ?_, fun x wanted =>
    ((after x).trail_eq member flat (owned x wanted) (.root member)).2⟩
  exact after.exclusive x other leaf node leafy member low full (by simpa using owned x wanted)

end State

/-- In every state of a run a local task has the effect of a transfer exactly if its leaf owns the
region alone and on record already. Where all acquires of the run could collect what they lacked
this means that the leaf lacks nothing of the region, or that there is no other leaf. -/
theorem transferred_local_task_iff {history : List (State α V × Action α)} {s : State α V}
    (run : (system α V k).Run history s) (leaf : HierarchyAddress)
    (member : InNetwork (2 ^ k) leaf) (low : leaf.isLeaf = true) (region : Finset α) :
    (State.Transferred k s (s.localTask (2 ^ k) leaf region) leaf region ↔
        s.OwnsAlone k leaf region) ∧
      (System.Meets (fun s action => action.Collectable k s) history →
        (s.OwnsAlone k leaf region ↔
          leaf = getRootOfNetworkSize (2 ^ k) ∨ region ⊆ (s.index leaf).full)) :=
  ⟨(sound_of_run run).transferred_localTask_iff member low region,
    fun collectable => (routed_of_run run collectable).1.ownsAlone_iff member low region⟩

/-- A local task for an element that its leaf has acquired before. -/
theorem transferred_local_task_two :
    State.Transferred 1 (State.initial.acquireReadWrite 2 ⟨1, 0⟩ {0} : State Nat Unit)
      ((State.initial.acquireReadWrite 2 ⟨1, 0⟩ {0}).localTask 2 ⟨1, 0⟩ {0}) ⟨1, 0⟩ {0} := by
  have run := run_acquire (k := 1) (α := Nat) (V := Unit) ⟨1, 0⟩ {0} .start (by decide)
    (by decide)
  obtain ⟨transferred, alone⟩ := transferred_local_task_iff run ⟨1, 0⟩ (by decide)
    (by decide) {0}
  refine transferred.mpr ((alone ?_).mpr (Or.inr (by decide)))
  simp only [System.Meets, List.forall_mem_cons]
  exact ⟨State.collectable_two _ (by decide) _, by simp⟩

/-- On two localities a local task at one leaf leaves an element with the other leaf, which has
acquired it before. -/
theorem not_transferred : ¬ ∀ (history : List (State Nat Unit × Action Nat))
    (s : State Nat Unit) (leaf : HierarchyAddress) (region : Finset Nat),
    (system Nat Unit 1).Run history s → InNetwork (2 ^ 1) leaf → leaf.isLeaf = true →
      State.Transferred 1 s (s.localTask (2 ^ 1) leaf region) leaf region := by
  intro claim
  have acquired := run_acquire (k := 1) (α := Nat) (V := Unit) ⟨0, 0⟩ {0} .start (by decide)
    (by decide)
  have removed := (claim _ _ ⟨1, 0⟩ {0} acquired (by decide) (by decide)).removed 0 (by decide)
    ⟨0, 0⟩ (by decide) (by decide) (by decide) (by decide)
  exact absurd removed (by decide)

end AllScale
