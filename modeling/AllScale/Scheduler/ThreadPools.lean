import Mathlib.Algebra.Order.Ring.Nat
import Mathlib.Data.Finset.Card
import Mathlib.Data.Finset.SymmDiff

/-!
# Thread pools

The scheduler keeps masks of the threads of a pool that it has asked the pool to take out of use or
to put back into use, and goes over them when it needs to know which threads are active. A thread is
named by its processing unit.
-/

namespace AllScale

/-- A thread pool of HPX. -/
structure ThreadPool where
  /-- `get_pu_num` of one thread after the other. -/
  pus : List Nat
  /-- No two threads have the same processing unit. -/
  distinct : pus.Nodup
  /-- There is no pool without threads. -/
  nonempty : pus ≠ []

/-- The masks that the scheduler keeps of a pool, and the one that the pool answers with. -/
structure PoolMasks where
  pool : ThreadPool
  /-- `initial_masks_`. -/
  initial : Finset Nat
  /-- `suspending_masks_`. -/
  suspending : Finset Nat
  /-- `resuming_masks_`. -/
  resuming : Finset Nat
  /-- `get_used_processing_units`. -/
  used : Finset Nat

/-- The two functions that change the number of threads in use. -/
inductive Throttle where
  /-- `suspend_threads`. -/
  | suspend
  /-- `resume_threads`. -/
  | resume
  deriving DecidableEq
namespace ThreadPool

/-- What `init` stores for a pool. -/
def init (pool : ThreadPool) : PoolMasks where
  pool := pool
  initial := pool.pus.toFinset
  suspending := ∅
  resuming := ∅
  used := pool.pus.toFinset

end ThreadPool

namespace PoolMasks

/-- The body of the loop over the threads of a pool, with the current mask of the pool. -/
def settle (kind : Throttle) : PoolMasks × Finset Nat → Nat → PoolMasks × Finset Nat
  | (self, curr), pu =>
    let suspending :=
      if pu ∈ self.suspending ∧ pu ∉ curr then self.suspending.erase pu else self.suspending
    let resuming :=
      if pu ∈ self.resuming ∧ pu ∈ curr then self.resuming.erase pu else self.resuming
    ({ self with suspending, resuming },
      match kind with
      | .suspend => if pu ∈ curr ∧ pu ∈ suspending then curr.erase pu else curr
      | .resume => if pu ∈ resuming ∧ pu ∉ curr then insert pu curr else curr)

/-- The loop over the threads of a pool, from the mask that the pool answers with. -/
def scan (kind : Throttle) (self : PoolMasks) : PoolMasks × Finset Nat :=
  self.pool.pus.foldl (settle kind) (self, self.used)

/-- The threads that can be selected: the active ones, or the blocked ones. -/
def candidates (kind : Throttle) (self : PoolMasks) (curr : Finset Nat) : Finset Nat :=
  match kind with
  | .suspend => curr
  | .resume => symmDiff curr self.initial

/-- The mask that a call sets for the threads it has selected. -/
def mark (kind : Throttle) (self : PoolMasks) (selected : List Nat) : PoolMasks :=
  match kind with
  | .suspend => { self with suspending := self.suspending ∪ selected.toFinset }
  | .resume => { self with resuming := self.resuming ∪ selected.toFinset }

/-- The pool has done what it was asked for: `suspend_processing_unit` or
`resume_processing_unit`. -/
def answer (kind : Throttle) (self : PoolMasks) (pu : Nat) : PoolMasks :=
  match kind with
  | .suspend => { self with used := self.used.erase pu }
  | .resume => { self with used := insert pu self.used }

end PoolMasks

namespace Throttle

/-- `min_threads`. -/
def minThreads : Nat := 1

/-- A call has nothing to do. -/
def idle : Throttle → Nat → Bool
  | .suspend, count => count == minThreads
  | .resume, count => count == 0

/-- The threads of a pool in the order in which they are selected. -/
def order : Throttle → List Nat → List Nat
  | .suspend, pus => (pus.drop minThreads).reverse
  | .resume, pus => pus

/-- `active_threads` after a call for so many threads. -/
def count : Throttle → Nat → Nat → Nat
  | .suspend, activeThreads, selected => (activeThreads + 2 ^ 64 - selected) % 2 ^ 64
  | .resume, activeThreads, selected => (activeThreads + selected) % 2 ^ 64

/-- `num_cores` at the end of a call for so many threads. -/
def numCores : Throttle → Nat → Nat → Nat
  | .suspend, osThreads, selected => osThreads - selected
  | .resume, osThreads, selected => osThreads + selected

end Throttle

/-- What the scan over the pools remembers. -/
structure PoolChoice where
  /-- `domain_active_threads` or `domain_blocked_threads`. -/
  count : Nat
  /-- `active_mask` or `blocked_mask`. -/
  mask : Finset Nat
  /-- `pool_idx`. -/
  pool : Nat

namespace PoolChoice

/-- The first pool with the most candidates. -/
def choose (masks : List (Finset Nat)) : PoolChoice :=
  masks.zipIdx.foldl (fun best entry =>
    if best.count < entry.1.card then ⟨entry.1.card, entry.1, entry.2⟩ else best) ⟨0, ∅, 0⟩

end PoolChoice

/-! ## The loop over the threads of a pool -/

namespace PoolMasks

variable {kind : Throttle}

/-- The members of a mask after a conditional `unset`. -/
theorem mem_unset {mask : Finset Nat} {pu other : Nat} {p : Prop} [Decidable p] :
    (other ∈ if pu ∈ mask ∧ p then mask.erase pu else mask) ↔
      other ∈ mask ∧ (other = pu → ¬ p) := by
  split
  · rename_i both
    rw [Finset.mem_erase]
    exact ⟨fun ⟨different, found⟩ => ⟨found, fun same => absurd same different⟩,
      fun ⟨found, not⟩ => ⟨fun same => not same both.2, found⟩⟩
  · rename_i notBoth
    exact ⟨fun found => ⟨found, fun same holds => notBoth ⟨same ▸ found, holds⟩⟩, And.left⟩

/-- The members of a mask after a conditional `set`. -/
theorem mem_set {mask : Finset Nat} {pu other : Nat} {p : Prop} [Decidable p] :
    (other ∈ if p ∧ pu ∉ mask then insert pu mask else mask) ↔
      other ∈ mask ∨ (other = pu ∧ p) := by
  split
  · rename_i both
    rw [Finset.mem_insert]
    exact ⟨fun found => found.symm.imp_right fun same => ⟨same, both.1⟩,
      fun found => found.symm.imp_left And.left⟩
  · rename_i notBoth
    refine ⟨Or.inl, fun found => found.elim id fun ⟨same, holds⟩ => ?_⟩
    by_contra absent
    exact notBoth ⟨holds, same ▸ absent⟩

/-- The loop over some threads of a pool, from any masks. -/
theorem foldl_settle {pus : List Nat} (distinct : pus.Nodup) (self : PoolMasks)
    (curr : Finset Nat) :
    pus.foldl (settle kind) (self, curr) =
      ({ self with
          suspending := self.suspending.filter fun pu => pu ∈ pus → pu ∈ curr
          resuming := self.resuming.filter fun pu => pu ∈ pus → pu ∉ curr },
        match kind with
        | .suspend => curr.filter fun pu => pu ∈ pus → pu ∉ self.suspending
        | .resume => curr ∪ self.resuming.filter (· ∈ pus)) := by
  induction pus generalizing self curr with
  | nil => cases kind <;> simp
  | cons pu pus ih =>
    obtain ⟨fresh, distinct⟩ := List.nodup_cons.mp distinct
    rw [List.foldl_cons, settle.eq_def, ih distinct]
    have other (pu' : Nat) (found : pu' ∈ pus) : pu' ≠ pu := fun same => fresh (same ▸ found)
    cases kind <;> simp only [Prod.mk.injEq, PoolMasks.mk.injEq, true_and, and_true]
    · refine ⟨⟨?_, ?_⟩, ?_⟩ <;> ext pu' <;> have := other pu' <;>
        simp only [Finset.mem_filter, mem_unset, List.mem_cons, not_not] <;> grind
    · refine ⟨⟨?_, ?_⟩, ?_⟩ <;> ext pu' <;> have := other pu' <;>
        simp only [Finset.mem_filter, Finset.mem_union, mem_unset, mem_set, List.mem_cons,
          not_not] <;> grind

/-- What holds of the masks of a pool at any time. -/
structure Sound (masks : PoolMasks) : Prop where
  initial : masks.initial = masks.pool.pus.toFinset
  used : masks.used ⊆ masks.initial
  suspending : ∀ pu ∈ masks.suspending, pu ∈ masks.pool.pus.drop Throttle.minThreads
  resuming : masks.resuming ⊆ masks.initial
  /-- The first thread is never taken out of use. -/
  first : ∀ pu ∈ masks.pool.pus.take Throttle.minThreads, pu ∈ masks.used
  disjoint : Disjoint masks.suspending masks.resuming

/-- What the masks say that the pool has been asked for and has not done. -/
def outstanding (self : PoolMasks) : Throttle → Finset Nat
  | .suspend => self.suspending ∩ self.used
  | .resume => self.resuming \ self.used

/-- The masks after the loop over the threads. -/
def settled (self : PoolMasks) : PoolMasks :=
  { self with
    suspending := self.outstanding .suspend
    resuming := self.outstanding .resume }

/-- The current mask after the loop over the threads. -/
def current (self : PoolMasks) : Throttle → Finset Nat
  | .suspend => self.used \ self.suspending
  | .resume => self.used ∪ self.resuming

/-- The loop over the threads drops from the masks what the pool has done, and counts a thread as
active unless its suspension is pending, or as soon as its resumption is. -/
theorem scan_eq {self : PoolMasks} (sound : self.Sound) :
    self.scan kind = (self.settled, self.current kind) := by
  have inside (pu : Nat) : (pu ∈ self.suspending → pu ∈ self.pool.pus) ∧
      (pu ∈ self.resuming → pu ∈ self.pool.pus) ∧ (pu ∈ self.used → pu ∈ self.pool.pus) := by
    have used := sound.used
    have resuming := sound.resuming
    rw [sound.initial] at used resuming
    exact ⟨fun found => List.mem_of_mem_drop (sound.suspending pu found),
      fun found => List.mem_toFinset.mp (resuming found),
      fun found => List.mem_toFinset.mp (used found)⟩
  rw [scan, foldl_settle self.pool.distinct, settled, outstanding, outstanding]
  refine Prod.ext ?_ ?_
  · simp only [PoolMasks.mk.injEq, true_and, and_true]
    constructor
    · ext pu
      have := inside pu
      simp only [Finset.mem_filter, Finset.mem_inter]
      tauto
    · ext pu
      have := inside pu
      simp only [Finset.mem_filter, Finset.mem_sdiff]
      tauto
  · cases kind with
    | suspend =>
      ext pu
      have := inside pu
      simp only [current, Finset.mem_filter, Finset.mem_sdiff]
      tauto
    | resume =>
      ext pu
      have := inside pu
      simp only [current, Finset.mem_filter, Finset.mem_union]
      tauto

/-- The thread that is never taken out of use is not among the others. -/
theorem not_mem_take (self : PoolMasks) {pu : Nat}
    (found : pu ∈ self.pool.pus.drop Throttle.minThreads) :
    pu ∉ self.pool.pus.take Throttle.minThreads := fun first =>
  List.disjoint_take_drop self.pool.distinct le_rfl first found

/-- What a pool has not done keeps its place in the masks. -/
theorem settled_sound {self : PoolMasks} (sound : self.Sound) : self.settled.Sound where
  initial := sound.initial
  used := sound.used
  suspending pu found := sound.suspending pu (Finset.mem_inter.mp found).1
  resuming := Finset.sdiff_subset.trans sound.resuming
  first := sound.first
  disjoint := (sound.disjoint.mono_left Finset.inter_subset_left).mono_right Finset.sdiff_subset

/-- The loop over the threads does not change what is outstanding. -/
theorem outstanding_settled (self : PoolMasks) (kind : Throttle) :
    self.settled.outstanding kind = self.outstanding kind := by
  cases kind
  · simp only [outstanding, settled, Finset.inter_assoc, Finset.inter_self]
  · simp only [outstanding, settled, Finset.sdiff_idem]

/-- The threads that can be selected are in use or not, as the call needs it, and nothing is
outstanding for them. -/
theorem mem_candidates {self : PoolMasks} (sound : self.Sound) {pu : Nat} :
    pu ∈ self.settled.candidates kind (self.current kind) ↔
      match kind with
      | .suspend => pu ∈ self.used ∧ pu ∉ self.suspending
      | .resume => pu ∈ self.initial ∧ pu ∉ self.used ∧ pu ∉ self.resuming := by
  cases kind with
  | suspend => simp only [candidates, current, Finset.mem_sdiff]
  | resume =>
    have used := @sound.used pu
    have resuming := @sound.resuming pu
    simp only [candidates, current, settled, Finset.mem_symmDiff, Finset.mem_union]
    tauto

variable {selected : List Nat}

/-- The masks stay sound when threads that can be selected are marked. -/
theorem mark_sound {self : PoolMasks} (sound : self.Sound)
    (ordered : ∀ pu ∈ selected, pu ∈ kind.order self.pool.pus)
    (candidate : ∀ pu ∈ selected, pu ∈ self.settled.candidates kind (self.current kind)) :
    (self.settled.mark kind selected).Sound := by
  have settled := settled_sound sound
  have selects (pu : Nat) (found : pu ∈ selected) := (mem_candidates sound).mp (candidate pu found)
  cases kind with
  | suspend =>
    refine ⟨settled.initial, settled.used, fun pu found => ?_, settled.resuming, settled.first, ?_⟩
    · rcases Finset.mem_union.mp found with found | found
      · exact settled.suspending pu found
      · exact List.mem_reverse.mp (ordered pu (List.mem_toFinset.mp found))
    · refine Finset.disjoint_union_left.mpr ⟨settled.disjoint, ?_⟩
      refine Finset.disjoint_left.mpr fun pu found pending => ?_
      have inUse := (selects pu (List.mem_toFinset.mp found)).1
      exact (Finset.mem_sdiff.mp pending).2 inUse
  | resume =>
    refine ⟨settled.initial, settled.used, settled.suspending, ?_, settled.first, ?_⟩
    · refine Finset.union_subset settled.resuming fun pu found => ?_
      exact (selects pu (List.mem_toFinset.mp found)).1
    · refine Finset.disjoint_union_right.mpr ⟨settled.disjoint, ?_⟩
      refine Finset.disjoint_right.mpr fun pu found pending => ?_
      have notInUse := (selects pu (List.mem_toFinset.mp found)).2.1
      exact notInUse (Finset.mem_inter.mp pending).2

/-- Marking adds the selected threads to what is outstanding. -/
theorem outstanding_mark {self : PoolMasks} (sound : self.Sound) (distinct : selected.Nodup)
    (candidate : ∀ pu ∈ selected, pu ∈ self.settled.candidates kind (self.current kind))
    (other : Throttle) :
    ((self.settled.mark kind selected).outstanding other).val =
      (self.outstanding other).val + if kind = other then (selected : Multiset Nat) else 0 := by
  have selects (pu : Nat) (found : pu ∈ selected) := (mem_candidates sound).mp (candidate pu found)
  have stays := outstanding_settled self other
  by_cases same : kind = other
  · subst same
    have fresh : Disjoint (self.outstanding kind) selected.toFinset := by
      refine Finset.disjoint_right.mpr fun pu found pending => ?_
      have selection := selects pu (List.mem_toFinset.mp found)
      cases kind with
      | suspend => exact selection.2 (Finset.mem_inter.mp pending).1
      | resume => exact selection.2.2 (Finset.mem_sdiff.mp pending).1
    have joined : (self.settled.mark kind selected).outstanding kind =
        (self.outstanding kind).disjUnion selected.toFinset fresh := by
      rw [Finset.disjUnion_eq_union, ← stays]
      ext pu
      have selection := selects pu
      cases kind with
      | suspend =>
        simp only [outstanding, mark, settled, Finset.mem_inter, Finset.mem_union,
          List.mem_toFinset] at selection ⊢
        tauto
      | resume =>
        simp only [outstanding, mark, settled, Finset.mem_sdiff, Finset.mem_union,
          List.mem_toFinset] at selection ⊢
        tauto
    rw [if_pos rfl, joined, Finset.disjUnion_val, List.toFinset_val,
      List.dedup_eq_self.mpr distinct]
  · rw [if_neg same, Multiset.add_zero, ← stays]
    cases kind <;> cases other <;> first | rfl | exact absurd rfl same

/-- The masks stay sound when the pool does what is outstanding. -/
theorem answer_sound {self : PoolMasks} (sound : self.Sound) {pu : Nat}
    (pending : pu ∈ self.outstanding kind) : (self.answer kind pu).Sound := by
  cases kind with
  | suspend =>
    have others := self.not_mem_take (sound.suspending pu (Finset.mem_inter.mp pending).1)
    refine ⟨sound.initial, (Finset.erase_subset _ _).trans sound.used, sound.suspending,
      sound.resuming, fun other found => ?_, sound.disjoint⟩
    exact Finset.mem_erase.mpr ⟨fun same => others (same ▸ found), sound.first other found⟩
  | resume =>
    have inside := sound.resuming (Finset.mem_sdiff.mp pending).1
    exact ⟨sound.initial, Finset.insert_subset inside sound.used, sound.suspending, sound.resuming,
      fun other found => Finset.mem_insert_of_mem (sound.first other found), sound.disjoint⟩

/-- What the pool does is no longer outstanding. -/
theorem outstanding_answer {self : PoolMasks} (sound : self.Sound) {pu : Nat}
    (pending : pu ∈ self.outstanding kind) (other : Throttle) :
    (self.answer kind pu).outstanding other =
      if kind = other then (self.outstanding other).erase pu else self.outstanding other := by
  have disjoint := Finset.disjoint_left.mp sound.disjoint
  cases kind <;> cases other
  · exact Finset.inter_erase _ _ _
  · have apart : pu ∉ self.resuming := disjoint (Finset.mem_inter.mp pending).1
    rw [if_neg (by decide)]
    ext found
    simp only [outstanding, answer, Finset.mem_sdiff, Finset.mem_erase]
    have different : found ∈ self.resuming → found ≠ pu := fun there same => apart (same ▸ there)
    tauto
  · have apart : pu ∉ self.suspending := fun found => disjoint found (Finset.mem_sdiff.mp pending).1
    rw [if_neg (by decide)]
    exact Finset.inter_insert_of_notMem apart
  · exact Finset.sdiff_insert _ _ _

end PoolMasks

namespace ThreadPool

/-- The masks of a pool are sound after `init`. -/
theorem init_sound (pool : ThreadPool) : pool.init.Sound where
  initial := rfl
  used := Finset.Subset.refl _
  suspending _ found := absurd found (Finset.notMem_empty _)
  resuming := Finset.empty_subset _
  first _ found := List.mem_toFinset.mpr (List.mem_of_mem_take found)
  disjoint := Finset.disjoint_empty_left _

/-- Nothing is outstanding after `init`. -/
theorem outstanding_init (pool : ThreadPool) (kind : Throttle) :
    pool.init.outstanding kind = ∅ := by
  cases kind
  · exact Finset.empty_inter _
  · exact Finset.empty_sdiff _

end ThreadPool

/-! ## Choosing a pool and threads -/

namespace PoolChoice

/-- The pool that is chosen has the mask that is remembered, or nothing is chosen. -/
theorem choose_eq (masks : List (Finset Nat)) :
    choose masks = ⟨0, ∅, 0⟩ ∨ (masks[(choose masks).pool]? = some (choose masks).mask ∧
      (choose masks).count = (choose masks).mask.card) := by
  refine List.foldlRecOn (motive := fun best : PoolChoice => best = ⟨0, ∅, 0⟩ ∨
    (masks[best.pool]? = some best.mask ∧ best.count = best.mask.card)) _ _ (.inl rfl) ?_
  intro best earlier entry found
  split
  · exact .inr ⟨List.mem_zipIdx_iff_getElem?.mp found, rfl⟩
  · exact earlier

end PoolChoice

end AllScale
