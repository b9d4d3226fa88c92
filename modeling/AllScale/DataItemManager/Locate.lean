import AllScale.DataItemManager.Grid

/-!
# What a lookup finds and leaves behind

The locked section of `locate` is described element by element: which owners it lists, and which
elements it passes on to which neighbour. A whole lookup writes to the caches only, it lists
nothing outside its region, and it ends when every step down the records of an element meets
either a leaf that has the element or a further record.
-/

namespace AllScale

open TokenTree HierarchyAddress

variable {α V : Type} {k : Nat}

namespace IndexEntry

variable [DecidableEq α]

/-! ## The locked section -/

/-- The loop over the cache keeps what has been found. -/
theorem lists_lookupCache_of_lists {parts : List (Nat × Finset α)} {info : LocationInfo α}
    {remaining : Finset α} {rank : Nat} {x : α} (found : info.Lists rank x) :
    (lookupCache parts info remaining).1.Lists rank x := by
  induction parts generalizing info remaining with
  | nil => exact found
  | cons cached rest ih =>
    have added : (info.addPart cached.1 (remaining ∩ cached.2)).Lists rank x :=
      LocationInfo.lists_addPart.mpr (Or.inl found)
    simp only [lookupCache]
    split
    · split
      · exact added
      · exact ih added
    · exact ih found

/-- The loop over the cache finds an element under a rank for which it is cached. -/
theorem lists_lookupCache {parts : List (Nat × Finset α)} {info : LocationInfo α}
    {remaining : Finset α} {rank : Nat} {x : α}
    (found : (lookupCache parts info remaining).1.Lists rank x) :
    info.Lists rank x ∨ x ∈ remaining ∧ ∃ part, (rank, part) ∈ parts ∧ x ∈ part := by
  induction parts generalizing info remaining with
  | nil => exact Or.inl found
  | cons cached rest ih =>
    obtain ⟨first, old⟩ := cached
    have added (found : (info.addPart first (remaining ∩ old)).Lists rank x) :
        info.Lists rank x ∨ x ∈ remaining ∧ ∃ part, (rank, part) ∈ (first, old) :: rest ∧
          x ∈ part := by
      rcases LocationInfo.lists_addPart.mp found with before | ⟨rfl, here⟩
      · exact Or.inl before
      · obtain ⟨wanted, stored⟩ := Finset.mem_inter.mp here
        exact Or.inr ⟨wanted, old, List.mem_cons_self, stored⟩
    simp only [lookupCache] at found
    split at found
    · split at found
      · exact added found
      · rcases ih found with here | ⟨left, part, later, stored⟩
        · exact added here
        · exact Or.inr ⟨(Finset.mem_sdiff.mp left).1, part, List.mem_cons_of_mem _ later, stored⟩
    · rcases ih found with before | ⟨wanted, part, later, stored⟩
      · exact Or.inl before
      · exact Or.inr ⟨wanted, part, List.mem_cons_of_mem _ later, stored⟩

/-- What remains after the loop over the cache is what is cached for no rank. -/
theorem mem_lookupCache {parts : List (Nat × Finset α)} {info : LocationInfo α}
    {remaining : Finset α} {x : α} :
    x ∈ (lookupCache parts info remaining).2 ↔ x ∈ remaining ∧ ∀ part ∈ parts, x ∉ part.2 := by
  induction parts generalizing info remaining with
  | nil => simp [lookupCache]
  | cons cached rest ih =>
    have cut : x ∈ remaining \ (remaining ∩ cached.2) ↔ x ∈ remaining ∧ x ∉ cached.2 := by
      simp
    simp only [lookupCache, List.forall_mem_cons]
    split
    · split
      · rename_i none
        rw [none] at cut ⊢
        simp only [Finset.notMem_empty, false_iff, not_and] at cut ⊢
        exact fun wanted apart => absurd apart (cut wanted)
      · rw [ih, cut, and_assoc]
    · rename_i none
      rw [ih]
      have apart : x ∈ remaining → x ∉ cached.2 := fun wanted stored => by
        have : x ∈ remaining ∩ cached.2 := Finset.mem_inter.mpr ⟨wanted, stored⟩
        rw [not_not.mp none] at this
        exact Finset.notMem_empty x this
      exact ⟨fun h => ⟨h.1, apart h.1, h.2⟩, fun h => ⟨h.1, h.2.2⟩⟩

/-- The loop over the cache finds every wanted element that is cached. -/
theorem exists_lists_lookupCache {parts : List (Nat × Finset α)} {info : LocationInfo α}
    {remaining : Finset α} {x : α} (wanted : x ∈ remaining) (stored : ∃ part ∈ parts, x ∈ part.2) :
    ∃ rank, (lookupCache parts info remaining).1.Lists rank x := by
  induction parts generalizing info remaining with
  | nil => simp at stored
  | cons cached rest ih =>
    simp only [lookupCache]
    by_cases hit : x ∈ cached.2
    · have found : x ∈ remaining ∩ cached.2 := Finset.mem_inter.mpr ⟨wanted, hit⟩
      have listed : (info.addPart cached.1 (remaining ∩ cached.2)).Lists cached.1 x :=
        LocationInfo.lists_addPart.mpr (Or.inr ⟨rfl, found⟩)
      rw [if_pos (Finset.ne_empty_of_mem found)]
      split
      · exact ⟨_, listed⟩
      · exact ⟨_, lists_lookupCache_of_lists listed⟩
    · obtain ⟨part, member, inside⟩ := stored
      have later : ∃ part ∈ rest, x ∈ part.2 := by
        rcases List.mem_cons.mp member with rfl | member
        · exact absurd inside hit
        · exact ⟨part, member, inside⟩
      have left : x ∈ remaining \ (remaining ∩ cached.2) := by simp [wanted, hit]
      split
      · rw [if_neg (Finset.ne_empty_of_mem left)]
        exact ih left later
      · exact ih wanted later

/-- The node itself is the leaf that has the element. -/
def Here (service : IndexService) (entry : IndexEntry α) (x : α) : Prop :=
  service.here.isLeaf = true ∧ x ∈ entry.full

/-- An element of a requested region that a node can only pass on. -/
def Open (service : IndexService) (entry : IndexEntry α) (region : Finset α) (x : α) : Prop :=
  x ∈ region ∧ ¬ entry.Here service x ∧ ∀ rank, ¬ entry.locationCache.Lists rank x

/-- The locked section of a lookup, element by element. -/
structure LocateSpec (service : IndexService) (entry : IndexEntry α) (region : Finset α)
    (located : Located α) : Prop where
  /-- What is listed is requested, and is here or cached. -/
  listed : ∀ {rank x}, located.info.Lists rank x →
    x ∈ region ∧ (entry.Here service x ∧ rank = service.here.rank ∨
      entry.locationCache.Lists rank x)
  /-- What is requested and here is listed. -/
  here : ∀ {x}, x ∈ region → entry.Here service x → located.info.Lists service.here.rank x
  /-- What is requested and cached is listed. -/
  cached : ∀ {rank x}, x ∈ region → entry.locationCache.Lists rank x →
    ∃ rank, located.info.Lists rank x
  /-- The right child is asked for what is on record for it. -/
  right : ∀ {x}, x ∈ located.right ↔
    entry.Open service region x ∧ service.here.isLeaf = false ∧ x ∈ entry.right
  /-- The left child is asked for what is on record for it only. -/
  left : ∀ {x}, x ∈ located.left ↔
    entry.Open service region x ∧ service.here.isLeaf = false ∧ x ∉ entry.right ∧ x ∈ entry.left
  /-- The parent is asked for what is on record for no child. -/
  parent : ∀ {x}, x ∈ located.parent ↔
    entry.Open service region x ∧ service.isRoot = false ∧
      (service.here.isLeaf = false → x ∉ entry.right ∧ x ∉ entry.left)

/-- A part that is left empty when nothing remains is taken as if something did. -/
theorem mem_ite_skip {skip : Prop} [Decidable skip] {remaining part : Finset α} {x : α}
    (inside : part ⊆ remaining) :
    x ∈ (if skip ∨ remaining = ∅ then ∅ else part) ↔ ¬ skip ∧ x ∈ part := by
  split
  · rename_i given
    simp only [Finset.notMem_empty, false_iff, not_and]
    intro taken found
    rcases given with given | none
    · exact taken given
    · exact Finset.notMem_empty x (none ▸ inside found)
  · rename_i taken
    exact ⟨fun found => ⟨fun given => taken (Or.inl given), found⟩, And.right⟩

/-- The locked section of a lookup lists what is here or cached and passes the rest on. -/
theorem locate_spec (service : IndexService) (entry : IndexEntry α) (region : Finset α) :
    LocateSpec service entry region (entry.locate service region) := by
  have own {x : α} : x ∈ (if service.here.isLeaf then region ∩ entry.full else ∅) ↔
      x ∈ region ∧ entry.Here service x := by
    split <;> simp_all [Here]
  simp only [locate]
  generalize (if service.here.isLeaf then region ∩ entry.full else ∅) = part at own ⊢
  have start {rank : Nat} {x : α} : (if part ≠ ∅ then
      LocationInfo.empty.addPart service.here.rank part else .empty).Lists rank x ↔
        (x ∈ region ∧ entry.Here service x) ∧ rank = service.here.rank := by
    rw [← own]
    split
    · simp [and_comm]
    · simp_all
  have rest {x : α} : x ∈ region \ part ↔ x ∈ region ∧ ¬ entry.Here service x := by
    rw [Finset.mem_sdiff, own]
    tauto
  generalize (if part ≠ ∅ then
    LocationInfo.empty.addPart service.here.rank part else .empty) = info at start ⊢
  split
  · -- the leaf has everything that is requested
    rename_i all
    have closed {x : α} : ¬ entry.Open service region x := fun h => by
      have := rest.mpr ⟨h.1, h.2.1⟩
      rw [all.2] at this
      exact Finset.notMem_empty x this
    refine ⟨fun found => ?_, fun wanted here => start.mpr ⟨⟨wanted, here⟩, rfl⟩,
      fun wanted stored => ?_, ?_, ?_, ?_⟩
    · obtain ⟨⟨wanted, here⟩, rank⟩ := start.mp found
      exact ⟨wanted, Or.inl ⟨here, rank⟩⟩
    · by_contra unlisted
      refine Finset.notMem_empty _ (all.2 ▸ rest.mpr ⟨wanted, fun here => ?_⟩)
      exact unlisted ⟨_, start.mpr ⟨⟨wanted, here⟩, rfl⟩⟩
    all_goals simp [closed]
  · have remains {x : α} :
        x ∈ (lookupCache entry.locationCache.regions info (region \ part)).2 ↔
          entry.Open service region x := by
      rw [mem_lookupCache, rest, Open, and_assoc]
      refine and_congr_right fun _ => and_congr_right fun _ => ?_
      simp only [LocationInfo.Lists, not_exists, not_and, Prod.forall]
    refine ⟨fun found => ?_, fun wanted here => ?_, fun wanted stored => ?_, ?_, ?_, ?_⟩
    · rcases lists_lookupCache found with before | ⟨left, stored⟩
      · obtain ⟨⟨wanted, here⟩, rank⟩ := start.mp before
        exact ⟨wanted, Or.inl ⟨here, rank⟩⟩
      · exact ⟨(rest.mp left).1, Or.inr stored⟩
    · exact lists_lookupCache_of_lists (start.mpr ⟨⟨wanted, here⟩, rfl⟩)
    · rename_i rank x
      by_cases here : entry.Here service x
      · exact ⟨_, lists_lookupCache_of_lists (start.mpr ⟨⟨wanted, here⟩, rfl⟩)⟩
      · obtain ⟨cached, found, inside⟩ := stored
        exact exists_lists_lookupCache (rest.mpr ⟨wanted, here⟩) ⟨_, found, inside⟩
    all_goals
      intro x
      generalize (lookupCache entry.locationCache.regions info (region \ part)).2 = remaining
        at remains
    · cases leaf : service.here.isLeaf <;> simp [remains]
    · rw [mem_ite_skip Finset.inter_subset_left]
      cases leaf : service.here.isLeaf <;> simp [remains, and_assoc]
    · rw [mem_ite_skip (Finset.Subset.refl _), Finset.mem_sdiff,
        mem_ite_skip Finset.inter_subset_left]
      cases leaf : service.here.isLeaf with
      | true => simp [remains, and_comm]
      | false =>
        simp [remains]
        tauto

end IndexEntry

namespace State

/-! ## Whole lookups -/

/-- What a lookup lists and writes to the caches, when `P` holds of what leaves have and of what
is cached. -/
structure Sourced (P : Nat → α → Prop) (s : State α V) (region : Finset α)
    (info : LocationInfo α) (s' : State α V) : Prop where
  /-- Only caches are written. -/
  caches : CachesOnly s s'
  /-- Only requested elements are listed. -/
  listed : ∀ {rank x}, info.Lists rank x → x ∈ region ∧ P rank x
  /-- Only requested elements are cached. -/
  cached : ∀ {addr rank x}, (s'.index addr).locationCache.Lists rank x →
    (s.index addr).locationCache.Lists rank x ∨ x ∈ region ∧ P rank x

namespace Sourced

variable {P : Nat → α → Prop} {s t : State α V} {region part : Finset α}
  {info : LocationInfo α}

/-- Nothing has been looked up. -/
theorem nothing (s : State α V) : Sourced P s region .empty s :=
  ⟨.refl s, fun found => absurd found (LocationInfo.not_lists_empty _ _), Or.inl⟩

/-- What lists less than its region lists no more than a larger one. -/
theorem mono (sourced : Sourced P s part info t) (inside : part ⊆ region) :
    Sourced P s region info t :=
  ⟨sourced.caches, fun found => (sourced.listed found).imp_left fun h => inside h,
    fun found => (sourced.cached found).imp_right (And.imp_left fun h => inside h)⟩

/-- What is cached stays within `P`. -/
theorem cached_of (sourced : Sourced P s region info t)
    (cached : ∀ addr rank x, (overlay k).Mem addr →
      (s.index addr).locationCache.Lists rank x → P rank x) :
    ∀ addr rank x, (overlay k).Mem addr → (t.index addr).locationCache.Lists rank x → P rank x :=
  fun addr rank x member found =>
    (sourced.cached found).elim (cached addr rank x member) And.right

end Sourced

/-- What leaves have stays within `P` when only caches are written. -/
theorem CachesOnly.leaves_of {P : Nat → α → Prop} {s t : State α V} (same : CachesOnly s t)
    (leaves : ∀ leaf x, (overlay k).Mem leaf → (overlay k).layer leaf = 0 →
      x ∈ (s.index leaf).full → P leaf.rank x) :
    ∀ leaf x, (overlay k).Mem leaf → (overlay k).layer leaf = 0 →
      x ∈ (t.index leaf).full → P leaf.rank x := fun leaf x member low found =>
  leaves leaf x member low (same.full leaf ▸ found)

variable [DecidableEq α]

/-- Each element has the same cells. -/
theorem CachesOnly.grid {s s' : State α V} (same : CachesOnly s s') (x : α) :
    s'.grid x = s.grid x := by
  funext addr
  simp [State.grid, IndexEntry.cell, same.full, same.left, same.right]

/-- Lookups one after the other, with their results merged. -/
theorem Sourced.merge {P : Nat → α → Prop} {s t u : State α V} {region : Finset α}
    {info info' : LocationInfo α} (first : Sourced P s region info t)
    (second : Sourced P t region info' u) : Sourced P s region (info.addParts info') u := by
  refine ⟨first.caches.trans second.caches, fun found => ?_, fun found => ?_⟩
  · rcases LocationInfo.lists_addParts.mp found with found | found
    · exact first.listed found
    · exact second.listed found
  · rcases second.cached found with before | new
    · exact first.cached before
    · exact Or.inr new

/-- A lookup that returns has made its calls in order and merged their results. -/
theorem locate_cases {size fuel : Nat} {s s' : State α V} {here : HierarchyAddress}
    {region : Finset α} {info : LocationInfo α}
    (returned : locate size (fuel + 1) s here region = some (info, s')) :
    ∃ right left parent : LocationInfo α × State α V,
      let service := IndexService.create size here
      let located := (s.index here).locate service region
      let merge := fun info : LocationInfo α =>
        ((info.addParts right.1).addParts left.1).addParts parent.1
      ask (locate size fuel) s service.right located.right = some right ∧
        ask (locate size fuel) right.2 service.left located.left = some left ∧
        ask (locate size fuel) left.2 service.parent located.parent = some parent ∧
        info = merge located.info ∧
        s' = parent.2.setEntry here { parent.2.index here with
          locationCache := merge (parent.2.index here).locationCache } := by
  simp only [locate, locateAt, Option.bind_eq_bind, Option.bind_eq_some_iff] at returned
  obtain ⟨right, first, left, second, parent, third, result⟩ := returned
  obtain ⟨rfl, rfl⟩ := Prod.mk.inj (Option.some.inj result)
  exact ⟨right, left, parent, first, second, third, rfl, rfl⟩

/-- The neighbours a lookup asks are nodes. -/
theorem asked_mem (entry : IndexEntry α) {here : HierarchyAddress} (region : Finset α)
    (member : (overlay k).Mem here) :
    let service := IndexService.create (2 ^ k) here
    let located := entry.locate service region
    (located.right ≠ ∅ → (overlay k).layer here ≠ 0 ∧
        service.right = (overlay k).child .right here ∧ (overlay k).Mem service.right) ∧
      (located.left ≠ ∅ → (overlay k).layer here ≠ 0 ∧
        service.left = (overlay k).child .left here ∧ (overlay k).Mem service.left) ∧
      (located.parent ≠ ∅ → here ≠ (overlay k).root ∧ (overlay k).Mem service.parent) := by
  have spec := IndexEntry.locate_spec (IndexService.create (2 ^ k) here) entry region
  refine ⟨fun nonempty => ?_, fun nonempty => ?_, fun nonempty => ?_⟩
  · obtain ⟨x, found⟩ := Finset.nonempty_iff_ne_empty.mpr nonempty
    have inner : (overlay k).layer here ≠ 0 :=
      IndexService.isLeaf_false_iff.mp (spec.right.mp found).2.1
    have place := IndexService.right_create member inner
    exact ⟨inner, place, place ▸ (overlay k).child_mem .right member inner⟩
  · obtain ⟨x, found⟩ := Finset.nonempty_iff_ne_empty.mpr nonempty
    have inner : (overlay k).layer here ≠ 0 :=
      IndexService.isLeaf_false_iff.mp (spec.left.mp found).2.1
    have place := IndexService.left_create inner
    exact ⟨inner, place, place ▸ (overlay k).child_mem .left member inner⟩
  · obtain ⟨x, found⟩ := Finset.nonempty_iff_ne_empty.mpr nonempty
    have notRoot : here ≠ (overlay k).root := fun h => by
      have := (spec.parent.mp found).2.1
      rw [IndexService.isRoot_create.mpr h] at this
      exact Bool.noConfusion this
    exact ⟨notRoot, (overlay k).parent_mem member notRoot⟩

/-- A lookup lists and caches only what leaves have or what has been cached. -/
theorem locate_sourced {P : Nat → α → Prop} {fuel : Nat} {s s' : State α V}
    {here : HierarchyAddress} {region : Finset α} {info : LocationInfo α}
    (member : (overlay k).Mem here)
    (leaves : ∀ leaf x, (overlay k).Mem leaf → (overlay k).layer leaf = 0 →
      x ∈ (s.index leaf).full → P leaf.rank x)
    (cached : ∀ addr rank x, (overlay k).Mem addr →
      (s.index addr).locationCache.Lists rank x → P rank x)
    (returned : locate (2 ^ k) fuel s here region = some (info, s')) :
    Sourced P s region info s' := by
  induction fuel generalizing s s' here region info with
  | zero => simp [locate] at returned
  | succ fuel ih =>
    obtain ⟨right, left, parent, first, second, third, rfl, rfl⟩ := locate_cases returned
    have spec := IndexEntry.locate_spec (IndexService.create (2 ^ k) here) (s.index here) region
    obtain ⟨rightNode, leftNode, parentNode⟩ :=
      asked_mem (s.index here) region member
    generalize (s.index here).locate (IndexService.create (2 ^ k) here) region = located at *
    have call {s : State α V} {addr : HierarchyAddress} {part : Finset α}
        {result : LocationInfo α × State α V} (node : part ≠ ∅ → (overlay k).Mem addr)
        (inside : part ⊆ region)
        (leaves : ∀ leaf x, (overlay k).Mem leaf → (overlay k).layer leaf = 0 →
          x ∈ (s.index leaf).full → P leaf.rank x)
        (cached : ∀ addr rank x, (overlay k).Mem addr →
          (s.index addr).locationCache.Lists rank x → P rank x)
        (asked : ask (locate (2 ^ k) fuel) s addr part = some result) :
        Sourced P s region result.1 result.2 := by
      rw [ask] at asked
      split at asked
      · obtain rfl := Option.some.inj asked
        exact .nothing s
      · exact (ih (node ‹_›) leaves cached asked).mono inside
    have one := call (fun nonempty => (rightNode nonempty).2.2)
      (fun x found => (spec.right.mp found).1.1)
      leaves cached first
    have two := call (fun nonempty => (leftNode nonempty).2.2)
      (fun x found => (spec.left.mp found).1.1)
      (one.caches.leaves_of leaves) (one.cached_of cached) second
    have three := call (fun nonempty => (parentNode nonempty).2)
      (fun x found => (spec.parent.mp found).1.1)
      ((one.caches.trans two.caches).leaves_of leaves)
      (two.cached_of (one.cached_of cached)) third
    have all := (one.merge two).merge three
    have merged (info : LocationInfo α) (rank : Nat) (x : α) :
        (((info.addParts right.1).addParts left.1).addParts parent.1).Lists rank x ↔
          info.Lists rank x ∨ ((right.1.addParts left.1).addParts parent.1).Lists rank x := by
      simp only [LocationInfo.lists_addParts, or_assoc]
    refine ⟨all.caches.trans (.setCache _ _ _), fun {rank x} found => ?_,
      fun {addr rank x} found => ?_⟩
    · rcases (merged _ _ _).mp found with own | other
      · obtain ⟨wanted, ⟨⟨leaf, full⟩, rfl⟩ | stored⟩ := spec.listed own
        · exact ⟨wanted, leaves here x member (IndexService.isLeaf_iff.mp leaf) full⟩
        · exact ⟨wanted, cached here rank x member stored⟩
      · exact all.listed other
    · by_cases h : addr = here
      · subst h
        simp only [index_setEntry, Function.update_self] at found
        rcases (merged _ _ _).mp found with before | new
        · exact all.cached before
        · exact Or.inr (all.listed new)
      · simp only [index_setEntry, Function.update_of_ne h] at found
        exact all.cached found

end State

end AllScale
