import AllScale.DataItemManager.Scheduling

/-!
# What the caches say

The cascades and the allowances write no cache, the broadcast of an acquire moves what it
acquires to its own rank, and a lookup adds what it has found. Together they keep the caches
sound: what is cached for a rank is in `full_` of the leaf of that rank.
-/

namespace AllScale

open TokenTree HierarchyAddress

variable {α V : Type} {k : Nat}

/-- A leaf of the network has an element in its `full_`. -/
def State.Owns (k : Nat) (s : State α V) (rank : Nat) (x : α) : Prop :=
  InNetwork (2 ^ k) ⟨rank, 0⟩ ∧ x ∈ (s.index ⟨rank, 0⟩).full

/-- What is cached for a rank is owned by the leaf of that rank. -/
def State.CachesSound (k : Nat) (s : State α V) : Prop :=
  ∀ addr rank x, InNetwork (2 ^ k) addr → (s.index addr).locationCache.Lists rank x →
    s.Owns k rank x

/-- A leaf is determined by its rank. -/
theorem eq_of_isLeaf {leaf : HierarchyAddress} (low : leaf.isLeaf = true) :
    leaf = ⟨leaf.rank, 0⟩ := by
  obtain ⟨rank, layer⟩ := leaf
  have zero : layer = 0 := beq_iff_eq.mp low
  rw [zero]

/-- A leaf owns what is in its `full_`. -/
theorem State.owns_of_leaf {s : State α V} {leaf : HierarchyAddress} {x : α}
    (member : InNetwork (2 ^ k) leaf) (low : leaf.isLeaf = true)
    (full : x ∈ (s.index leaf).full) : s.Owns k leaf.rank x := by
  rw [eq_of_isLeaf low] at member full
  exact ⟨member, full⟩

/-- Nothing is cached in the initial state. -/
theorem cachesSound_initial : (State.initial : State α V).CachesSound k :=
  fun _ _ _ _ listed => absurd listed (LocationInfo.not_lists_empty _ _)

variable [DecidableEq α]

namespace State

/-! ## Operations that write no cache -/

/-- Collecting writes no cache. -/
theorem caches_collectChildOwnerships (size layer : Nat) (s : State α V)
    (here : HierarchyAddress) (missing : Finset α) :
    SameCaches s (s.collectChildOwnerships size layer here missing).2 := by
  induction layer generalizing s here missing with
  | zero =>
    simp only [collectChildOwnerships]
    split <;> exact .setEntry rfl
  | succ layer ih =>
    have entry : ((s.index here).collectChildOwnerships missing).entry.locationCache =
        (s.index here).locationCache := by
      simp only [IndexEntry.collectChildOwnerships]
      split <;> split <;> (try split) <;> rfl
    simp only [collectChildOwnerships]
    exact ((SameCaches.setEntry entry).trans (.ite (ih _ _ _))).trans (.ite (ih _ _ _))

/-- Acquiring ownership for a child writes no cache. -/
theorem caches_acquireOwnershipFor (size height : Nat) (s : State α V)
    (here child : HierarchyAddress) (missing : Finset α) :
    SameCaches s (s.acquireOwnershipFor size height here child missing).2 := by
  have level {ask : State α V → HierarchyAddress → HierarchyAddress → Finset α →
        LocationInfo α × State α V}
      (asked : ∀ s here child missing, SameCaches s (ask s here child missing).2)
      (s : State α V) (here child : HierarchyAddress) (missing : Finset α) :
      SameCaches s (s.acquireOwnershipAt size ask here child missing).2 := by
    have entry : ((s.index here).acquireOwnershipFor (.create size here) child
        missing).entry.locationCache = (s.index here).locationCache := by
      simp only [IndexEntry.acquireOwnershipFor]
      split <;> split <;> split <;> rfl
    simp only [acquireOwnershipAt]
    exact ((SameCaches.setEntry entry).trans (.ite (asked _ _ _ _))).trans
      (.ite (caches_collectChildOwnerships _ _ _ _ _))
  induction height generalizing s here child missing with
  | zero => exact level (fun _ _ _ _ _ => rfl) s here child missing
  | succ height ih => exact level ih s here child missing

/-- Acquiring ownership at a leaf writes no cache. -/
theorem caches_acquireOwnership (size : Nat) (s : State α V) (here : HierarchyAddress)
    (missing : Finset α) : SameCaches s (s.acquireOwnership size here missing).2 := by
  simp only [acquireOwnership]
  refine (SameCaches.setEntry (by rfl)).trans (.ite ?_)
  exact caches_acquireOwnershipFor _ _ _ _ _ _

/-! ## Caches stay sound -/

/-- What a rank owns it still owns when its leaf entry has not lost the element. -/
theorem Owns.of_held {s s' : State α V} {rank : Nat} {x : α} (owns : s.Owns k rank x)
    (keeps : (s.grid x ⟨rank, 0⟩).held = true → (s'.grid x ⟨rank, 0⟩).held = true) :
    s'.Owns k rank x := by
  refine ⟨owns.1, ?_⟩
  simpa using keeps (by simpa using owns.2)

/-- What is cached after the broadcast of an acquire was cached before for an element that is not
moved, or names the acquiring rank. -/
theorem lists_updateCaches {s : State α V} {missing : Finset α} {newRank : Nat}
    {addr : HierarchyAddress} {rank : Nat} {x : α} (member : InNetwork (2 ^ k) addr)
    (listed : ((s.updateCaches (2 ^ k) missing newRank).index addr).locationCache.Lists rank x) :
    (s.index addr).locationCache.Lists rank x ∧ x ∉ missing ∨ rank = newRank ∧ x ∈ missing := by
  simp only [updateCaches, if_pos member, IndexEntry.updateCache] at listed
  rcases LocationInfo.lists_update.mp listed with kept | ⟨same, moved, -⟩
  · exact Or.inl kept
  · exact Or.inr ⟨same, moved⟩

/-- An acquire keeps the caches sound. -/
theorem CachesSound.acquire {s : State α V} {leaf : HierarchyAddress} {region : Finset α}
    (sound : s.CachesSound k) (member : InNetwork (2 ^ k) leaf) (low : leaf.isLeaf = true) :
    (s.acquireReadWrite (2 ^ k) leaf region).CachesSound k := by
  intro addr rank x node listed
  have moved := grid_acquireReadWrite x s leaf region member
  rw [acquireReadWrite] at listed moved ⊢
  split at listed
  · rename_i some
    rw [if_pos some] at moved ⊢
    rw [index_transfers, caches_acquireOwnership] at listed
    rcases lists_updateCaches node listed with ⟨before, kept⟩ | ⟨rfl, missing⟩
    · -- an element that is not missing has not been moved
      refine (sound addr rank x node before).of_held fun held => ?_
      rw [moved]
      split
      · rename_i inside
        have full : (s.grid x leaf).held = true := by
          by_contra absent
          exact kept (Finset.mem_sdiff.mpr ⟨inside, by simpa using absent⟩)
        rwa [LayeredTree.take, if_pos full]
      · exact held
    · rw [if_pos (Finset.mem_sdiff.mp missing).1] at moved
      refine owns_of_leaf member low ?_
      have held := LayeredTree.held_take (g := s.grid x) (T := overlay k) member
      rw [← moved] at held
      simpa using held
  · rename_i none
    rw [if_neg none]
    exact sound addr rank x node listed

/-- Handing an allowance down keeps the caches sound. -/
theorem CachesSound.allowed {s t : State α V} {start : HierarchyAddress} {path : List Side}
    {region : Finset α} (sound : s.CachesSound k) (allowed : Allowed k path s start region t) :
    t.CachesSound k := by
  intro addr rank x node listed
  rw [allowed.caches] at listed
  refine (sound addr rank x node listed).of_held fun held => ?_
  by_cases inside : x ∈ region
  · rw [allowed.kept x inside]
    exact LayeredTree.held_keep (LayeredTree.held_passDown path held)
  · rw [allowed.others x inside]
    exact held

/-- A lookup keeps the caches sound, and lists owners only. -/
theorem CachesSound.locate {s s' : State α V} {addr : HierarchyAddress} {region : Finset α}
    {fuel : Nat} {info : LocationInfo α} (sound : s.CachesSound k)
    (member : InNetwork (2 ^ k) addr)
    (returned : s.locate (2 ^ k) fuel addr region = some (info, s')) :
    s'.CachesSound k ∧ ∀ rank x, info.Lists rank x → x ∈ region ∧ s.Owns k rank x := by
  have sourced := locate_sourced (P := s.Owns k) member
    (fun leaf x node low full => owns_of_leaf node (IndexService.isLeaf_iff.mpr low) full)
    sound returned
  refine ⟨fun n rank x node listed => ?_, fun rank x listed => sourced.listed listed⟩
  refine (sourced.cached_of sound n rank x node listed).of_held fun held => ?_
  rwa [sourced.caches.grid]

end State

/-- Every step keeps the caches sound. -/
theorem Step.cachesSound {s s' : State α V} {action : Action α} (sound : s.CachesSound k)
    (step : Step k s action s') : s'.CachesSound k := by
  cases step with
  | acquire member low => exact sound.acquire member low
  | read member _ returned =>
    simp only [State.acquireReadOnly, Option.bind_eq_bind, Option.bind_eq_some_iff] at returned
    obtain ⟨⟨info, t⟩, located, result⟩ := returned
    rw [← Option.some.inj result]
    have after := (sound.locate member located).1
    intro addr rank x node listed
    rw [State.index_transfers] at listed
    refine (after addr rank x node listed).of_held fun held => ?_
    rwa [State.grid_transfers]
  | locate member returned => exact (sound.locate member returned).1
  | @task start path region member fits _ =>
    obtain ⟨t, allowed, result⟩ := State.task_spec s start path region member fits
    have handed := sound.allowed allowed
    rw [result]
    split
    · exact handed.acquire ((overlay k).descend_spec path member fits).1 ‹_›
    · exact handed

end AllScale
