import AllScale.DataItemManager.Locate

/-!
# Lookups that end, find their elements or run forever

A lookup moves up while an element is on record for neither child and down along its records.
It ends when every record of every requested element leads on (`locate_total`), it finds every
element that a routed index has (`locate_complete`), and it never ends when a record leads to an
inner node without one, because that node asks its parent again (`locate_diverges`).
-/

namespace AllScale

open TokenTree HierarchyAddress

variable {α V : Type} {k : Nat} [DecidableEq α]

namespace State

/-! ## Lookups that end -/

/-- Only caches are written by a lookup that returns. -/
theorem locate_caches {fuel : Nat} {s s' : State α V} {here : HierarchyAddress}
    {region : Finset α} {info : LocationInfo α} (member : (overlay k).Mem here)
    (returned : locate (2 ^ k) fuel s here region = some (info, s')) :
    Sourced (fun _ _ => True) s region info s' :=
  locate_sourced member (fun _ _ _ _ _ => trivial) (fun _ _ _ _ _ => trivial) returned

/-- A lookup whose three calls return returns. -/
theorem locate_of_calls {size fuel : Nat} {s : State α V} {here : HierarchyAddress}
    {region : Finset α} {right left parent : LocationInfo α × State α V}
    (first : ask (locate size fuel) s (IndexService.create size here).right
      ((s.index here).locate (IndexService.create size here) region).right = some right)
    (second : ask (locate size fuel) right.2 (IndexService.create size here).left
      ((s.index here).locate (IndexService.create size here) region).left = some left)
    (third : ask (locate size fuel) left.2 (IndexService.create size here).parent
      ((s.index here).locate (IndexService.create size here) region).parent = some parent) :
    ∃ result, locate size (fuel + 1) s here region = some result := by
  simp only [locate, locateAt, first, second, third, Option.bind_eq_bind, Option.bind_some]
  exact ⟨_, rfl⟩

/-- A call for an empty region returns. -/
theorem ask_empty (call : State α V → HierarchyAddress → Finset α →
    Option (LocationInfo α × State α V)) (s : State α V) (addr : HierarchyAddress) :
    ask call s addr ∅ = some (.empty, s) := if_pos rfl

/-- A call that returns writes caches only. -/
theorem ask_caches {fuel : Nat} {s : State α V} {addr : HierarchyAddress} {region : Finset α}
    {result : LocationInfo α × State α V} (node : region ≠ ∅ → (overlay k).Mem addr)
    (asked : ask (locate (2 ^ k) fuel) s addr region = some result) :
    Sourced (fun _ _ => True) s region result.1 result.2 := by
  rw [ask] at asked
  split at asked
  · obtain rfl := Option.some.inj asked
    exact .nothing s
  · exact locate_caches (node ‹_›) asked

/-- The call of a lookup to one child returns when the lookup there does. -/
theorem ask_total (fuel : Nat) (s : State α V) (addr : HierarchyAddress) (region : Finset α)
    (returns : region ≠ ∅ → ∃ result, locate (2 ^ k) fuel s addr region = some result) :
    ∃ result, ask (locate (2 ^ k) fuel) s addr region = some result := by
  by_cases empty : region = ∅
  · exact ⟨_, empty ▸ ask_empty _ s addr⟩
  · rw [ask, if_neg empty]
    exact returns empty

/-- Both children answer when lookups of what is on record for them return. -/
theorem ask_children (fuel : Nat) {s : State α V} {here : HierarchyAddress} (region : Finset α)
    (member : (overlay k).Mem here)
    (down : ∀ side (s' : State α V) part, (overlay k).layer here ≠ 0 →
      (∀ x, s'.grid x = s.grid x) → part ⊆ region →
      (∀ x ∈ part, (s.grid x here).on side = true) →
      ∃ result, locate (2 ^ k) fuel s' ((overlay k).child side here) part = some result) :
    ∃ right left : LocationInfo α × State α V,
      ask (locate (2 ^ k) fuel) s (IndexService.create (2 ^ k) here).right
          ((s.index here).locate (IndexService.create (2 ^ k) here) region).right = some right ∧
        ask (locate (2 ^ k) fuel) right.2 (IndexService.create (2 ^ k) here).left
          ((s.index here).locate (IndexService.create (2 ^ k) here) region).left = some left ∧
        CachesOnly s left.2 := by
  have spec := IndexEntry.locate_spec (IndexService.create (2 ^ k) here) (s.index here) region
  obtain ⟨rightNode, leftNode, -⟩ := asked_mem (s.index here) region member
  obtain ⟨right, first⟩ := ask_total (k := k) fuel s (IndexService.create (2 ^ k) here).right
    ((s.index here).locate (IndexService.create (2 ^ k) here) region).right
    (fun nonempty => by
      rw [(rightNode nonempty).2.1]
      exact down .right s _ (rightNode nonempty).1 (fun _ => rfl)
        (fun x found => (spec.right.mp found).1.1)
        (fun x found => by simpa [Cell.on] using (spec.right.mp found).2.2))
  have same := (ask_caches (fun nonempty => (rightNode nonempty).2.2) first).caches
  obtain ⟨left, second⟩ := ask_total (k := k) fuel right.2 (IndexService.create (2 ^ k) here).left
    ((s.index here).locate (IndexService.create (2 ^ k) here) region).left
    (fun nonempty => by
      rw [(leftNode nonempty).2.1]
      exact down .left right.2 _ (leftNode nonempty).1 same.grid
        (fun x found => (spec.left.mp found).1.1)
        (fun x found => by simpa [Cell.on] using (spec.left.mp found).2.2.2))
  exact ⟨right, left, first, second,
    same.trans (ask_caches (fun nonempty => (leftNode nonempty).2.2) second).caches⟩

/-- In a settled index a child tracks what is on record for it. -/
theorem tracked_child {x : α} {s s' : State α V} {here : HierarchyAddress} {side : Side}
    (member : (overlay k).Mem here) (inner : (overlay k).layer here ≠ 0)
    (settled : (overlay k).Settled (s.grid x)) (same : s'.grid x = s.grid x)
    (recorded : (s.grid x here).on side = true) :
    (overlay k).Tracked (s'.grid x) ((overlay k).child side here) := by
  rw [same]
  refine settled _ ((overlay k).child_mem side member inner)
    ((overlay k).child_ne_root side member inner) ?_
  rwa [(overlay k).recorded_child side member inner]

/-- A lookup of elements that are tracked where it starts goes down only, and ends. -/
theorem locate_total_down {fuel : Nat} {s : State α V} {here : HierarchyAddress}
    {region : Finset α} (member : (overlay k).Mem here) (enough : (overlay k).layer here < fuel)
    (settled : ∀ x ∈ region, (overlay k).Settled (s.grid x))
    (tracked : ∀ x ∈ region, (overlay k).Tracked (s.grid x) here) :
    ∃ result, locate (2 ^ k) fuel s here region = some result := by
  induction fuel generalizing s here region with
  | zero => exact absurd enough (Nat.not_lt_zero _)
  | succ fuel ih =>
    have spec := IndexEntry.locate_spec (IndexService.create (2 ^ k) here) (s.index here) region
    have noParent :
        ((s.index here).locate (IndexService.create (2 ^ k) here) region).parent = ∅ := by
      refine Finset.eq_empty_of_forall_notMem fun x found => ?_
      obtain ⟨⟨wanted, away, -⟩, -, unrecorded⟩ := spec.parent.mp found
      cases leaf : here.isLeaf with
      | true =>
        have held := (tracked x wanted).1 (IndexService.isLeaf_iff.mp leaf)
        exact away ⟨leaf, by simpa using held⟩
      | false =>
        have sides := unrecorded leaf
        have recorded := (tracked x wanted).2 (IndexService.isLeaf_false_iff.mp leaf)
        simp [sides] at recorded
    obtain ⟨right, left, first, second, -⟩ :=
      ask_children fuel region member
        fun side s' part inner same inside recorded => by
          have lower := (overlay k).layer_child side member inner
          exact ih ((overlay k).child_mem side member inner) (by omega)
            (fun x found => by rw [same]; exact settled x (inside found))
            (fun x found => tracked_child member inner (settled x (inside found)) (same x)
              (recorded x found))
    exact locate_of_calls first second (by rw [noParent]; exact ask_empty _ _ _)

/-- A lookup in a settled index ends: it climbs to the root at most once and then goes down. -/
theorem locate_total {fuel : Nat} {s : State α V} {here : HierarchyAddress}
    {region : Finset α} (member : (overlay k).Mem here)
    (enough : (overlay k).layer (overlay k).root - (overlay k).layer here +
      (overlay k).layer (overlay k).root < fuel)
    (settled : ∀ x ∈ region, (overlay k).Settled (s.grid x)) :
    ∃ result, locate (2 ^ k) fuel s here region = some result := by
  induction fuel generalizing s here region with
  | zero => exact absurd enough (Nat.not_lt_zero _)
  | succ fuel ih =>
    have spec := IndexEntry.locate_spec (IndexService.create (2 ^ k) here) (s.index here) region
    obtain ⟨-, -, parentNode⟩ := asked_mem (s.index here) region member
    have bound := (overlay k).layer_le_root member
    obtain ⟨right, left, first, second, same⟩ :=
      ask_children fuel region member
        fun side s' part inner same inside recorded => by
          have lower := (overlay k).layer_child side member inner
          exact locate_total_down ((overlay k).child_mem side member inner) (by omega)
            (fun x found => by rw [same]; exact settled x (inside found))
            (fun x found => tracked_child member inner (settled x (inside found)) (same x)
              (recorded x found))
    obtain ⟨parent, third⟩ :=
      ask_total (k := k) fuel left.2 (IndexService.create (2 ^ k) here).parent
      ((s.index here).locate (IndexService.create (2 ^ k) here) region).parent
      (fun nonempty => by
        have notRoot := (parentNode nonempty).1
        have low := (overlay k).layer_lt_root member notRoot
        have raised : (overlay k).layer (IndexService.create (2 ^ k) here).parent =
          (overlay k).layer here + 1 := (overlay k).layer_parent member notRoot
        refine ih (parentNode nonempty).2 (by omega) fun x found => ?_
        rw [same.grid]
        exact settled x (spec.parent.mp found).1.1)
    exact locate_of_calls first second third

/-! ## Lookups that run forever -/

/-- A call that does not return keeps the lookup from returning. -/
theorem locate_none {size fuel : Nat} {s : State α V} {here : HierarchyAddress}
    {region : Finset α}
    (blocked : ∀ right left : LocationInfo α × State α V,
      ask (locate size fuel) s (IndexService.create size here).right
          ((s.index here).locate (IndexService.create size here) region).right = some right →
      ask (locate size fuel) right.2 (IndexService.create size here).left
          ((s.index here).locate (IndexService.create size here) region).left = some left →
      ask (locate size fuel) left.2 (IndexService.create size here).parent
          ((s.index here).locate (IndexService.create size here) region).parent = none) :
    locate size (fuel + 1) s here region = none := by
  cases returned : locate size (fuel + 1) s here region with
  | none => rfl
  | some result =>
    obtain ⟨right, left, parent, first, second, third, -, -⟩ := locate_cases returned
    rw [blocked right left first second] at third
    simp at third

/-- A node is on record for an element that it has itself on record for no child, and the element is
in no cache. -/
structure Looping (k : Nat) (s : State α V) (x : α) (node : HierarchyAddress) : Prop where
  /-- No node has the element on record for both children. -/
  disjoint : ∀ n, (overlay k).Mem n → (s.grid x n).left = true → (s.grid x n).right = false
  /-- The node is on record for the element. -/
  recorded : (overlay k).recorded (s.grid x) node = true
  /-- Its left child is not. -/
  left : (s.grid x node).left = false
  /-- Nor is its right child. -/
  right : (s.grid x node).right = false
  /-- No cache lists the element. -/
  uncached : ∀ addr rank, (overlay k).Mem addr → ¬ (s.index addr).locationCache.Lists rank x

namespace Looping

variable {x : α} {s t : State α V} {node : HierarchyAddress} {region : Finset α}

/-- Calls for other elements leave the situation of an element as it is. -/
theorem of_call (looping : s.Looping k x node) {part : Finset α} {info : LocationInfo α}
    (other : x ∉ part) (sourced : Sourced (fun _ _ => True) s part info t) :
    t.Looping k x node := by
  have same : t.grid x = s.grid x := sourced.caches.grid x
  refine ⟨same ▸ looping.disjoint, same ▸ looping.recorded, same ▸ looping.left,
    same ▸ looping.right, fun addr rank place found => ?_⟩
  rcases sourced.cached found with before | inside
  · exact looping.uncached addr rank place before
  · exact other inside.1

/-- A node that is no leaf can only pass the element on. -/
theorem isOpen (looping : s.Looping k x node) {n : HierarchyAddress} (wanted : x ∈ region)
    (place : (overlay k).Mem n) (virtual : (overlay k).layer n ≠ 0) :
    (s.index n).Open (IndexService.create (2 ^ k) n) region x :=
  ⟨wanted, fun here => virtual (IndexService.isLeaf_iff.mp here.1),
    fun rank => looping.uncached n rank place⟩

/-- The node asks its parent for the element. -/
theorem locate_node {fuel : Nat} (looping : s.Looping k x node) (member : (overlay k).Mem node)
    (notRoot : node ≠ (overlay k).root) (inner : (overlay k).layer node ≠ 0)
    (wanted : x ∈ region)
    (parent : ∀ {t : State α V} {part : Finset α}, t.Looping k x node → x ∈ part →
      ask (locate (2 ^ k) fuel) t ((overlay k).parent node) part = none) :
    locate (2 ^ k) (fuel + 1) s node region = none := by
  refine locate_none fun first second done done' => ?_
  have spec := IndexEntry.locate_spec (IndexService.create (2 ^ k) node) (s.index node) region
  obtain ⟨rightNode, leftNode, -⟩ := asked_mem (s.index node) region member
  have noRight : x ∉ (s.index node).right := by simpa using looping.right
  have noLeft : x ∉ (s.index node).left := by simpa using looping.left
  have once := looping.of_call (fun found => noRight (spec.right.mp found).2.2)
    (ask_caches (fun nonempty => (rightNode nonempty).2.2) done)
  have twice := once.of_call (fun found => noLeft (spec.left.mp found).2.2.2)
    (ask_caches (fun nonempty => (leftNode nonempty).2.2) done')
  have isRoot : (IndexService.create (2 ^ k) node).isRoot = false := by
    rw [← Bool.not_eq_true]
    exact fun h => notRoot (IndexService.isRoot_create.mp h)
  apply parent twice
  exact spec.parent.mpr ⟨looping.isOpen wanted member inner, isRoot, fun _ => ⟨noRight, noLeft⟩⟩

/-- The parent asks the node for the element. -/
theorem locate_parent {fuel : Nat} (looping : s.Looping k x node) (member : (overlay k).Mem node)
    (notRoot : node ≠ (overlay k).root) (wanted : x ∈ region)
    (child : ∀ {t : State α V} {part : Finset α}, t.Looping k x node → x ∈ part →
      ask (locate (2 ^ k) fuel) t node part = none) :
    locate (2 ^ k) (fuel + 1) s ((overlay k).parent node) region = none := by
  have high := (overlay k).parent_mem member notRoot
  have inner := (overlay k).layer_parent_ne_zero member notRoot
  refine locate_none fun first second done done' => ?_
  have spec := IndexEntry.locate_spec (IndexService.create (2 ^ k) ((overlay k).parent node))
    (s.index ((overlay k).parent node)) region
  obtain ⟨rightNode, -, -⟩ := asked_mem (s.index ((overlay k).parent node)) region high
  have virtual := IndexService.isLeaf_false_iff.mpr inner
  have place := (overlay k).child_side member notRoot
  have here := looping.isOpen wanted high inner
  have recorded := looping.recorded
  rw [LayeredTree.recorded] at recorded
  exfalso
  cases side : (overlay k).side node with
  | right =>
    rw [side] at recorded place
    have found : x ∈ (s.index ((overlay k).parent node)).right := by
      simpa [Cell.on] using recorded
    rw [IndexService.right_create high inner, place,
      child looping (spec.right.mpr ⟨here, virtual, found⟩)] at done
    simp at done
  | left =>
    rw [side] at recorded place
    have noRight : x ∉ (s.index ((overlay k).parent node)).right := by
      simpa using looping.disjoint _ high recorded
    have found : x ∈ (s.index ((overlay k).parent node)).left := by
      simpa [Cell.on] using recorded
    have once := looping.of_call (fun found => noRight (spec.right.mp found).2.2)
      (ask_caches (fun nonempty => (rightNode nonempty).2.2) done)
    rw [IndexService.left_create inner, place,
      child once (spec.left.mpr ⟨here, virtual, noRight, found⟩)] at done'
    simp at done'

/-- The node and its parent ask each other for the element forever. -/
theorem locate_diverges (fuel : Nat) (looping : s.Looping k x node)
    (member : (overlay k).Mem node) (notRoot : node ≠ (overlay k).root)
    (inner : (overlay k).layer node ≠ 0) (wanted : x ∈ region) :
    locate (2 ^ k) fuel s node region = none ∧
      locate (2 ^ k) fuel s ((overlay k).parent node) region = none := by
  induction fuel generalizing s region with
  | zero => exact ⟨rfl, rfl⟩
  | succ fuel ih =>
    constructor
    · apply looping.locate_node member notRoot inner wanted
      intro t part again found
      rw [ask, if_neg (Finset.ne_empty_of_mem found)]
      exact (ih again found).2
    · apply looping.locate_parent member notRoot wanted
      intro t part again found
      rw [ask, if_neg (Finset.ne_empty_of_mem found)]
      exact (ih again found).1

end Looping

/-! ## Lookups that find their elements -/

/-- What some leaf has in a routed index is at the root, or on record there. -/
theorem known_at_root {x : α} {s : State α V} {leaf here : HierarchyAddress}
    (routed : (overlay k).Routed (s.grid x)) (owner : (overlay k).Mem leaf)
    (low : (overlay k).layer leaf = 0) (held : x ∈ (s.index leaf).full)
    (isRoot : here = (overlay k).root) :
    (here.isLeaf = true → x ∈ (s.index here).full) ∧
      (here.isLeaf = false → x ∈ (s.index here).right ∨ x ∈ (s.index here).left) := by
  obtain ⟨-, trail⟩ := routed.trail_eq owner low (by simpa using held) (.root owner)
  rw [← isRoot] at trail
  constructor
  · intro flat
    have zero : (overlay k).layer here = 0 := IndexService.isLeaf_iff.mp flat
    rw [zero, LayeredTree.trail] at trail
    rw [Option.some.inj trail]
    exact held
  · intro virtual
    have inner : (overlay k).layer here ≠ 0 := IndexService.isLeaf_false_iff.mp virtual
    obtain ⟨layer, height⟩ := Nat.exists_eq_succ_of_ne_zero inner
    rw [height, LayeredTree.trail] at trail
    by_contra unknown
    rw [not_or] at unknown
    simp [unknown.1, unknown.2] at trail

/-- A lookup in a routed index lists every requested element that some leaf has. -/
theorem locate_complete {x : α} {fuel : Nat} {s s' : State α V} {here leaf : HierarchyAddress}
    {region : Finset α} {info : LocationInfo α} (member : (overlay k).Mem here)
    (routed : (overlay k).Routed (s.grid x)) (owner : (overlay k).Mem leaf)
    (low : (overlay k).layer leaf = 0) (held : x ∈ (s.index leaf).full) (wanted : x ∈ region)
    (returned : locate (2 ^ k) fuel s here region = some (info, s')) :
    ∃ rank, info.Lists rank x := by
  induction fuel generalizing s s' here region info with
  | zero => simp [locate] at returned
  | succ fuel ih =>
    obtain ⟨right, left, parent, first, second, third, rfl, -⟩ := locate_cases returned
    have spec := IndexEntry.locate_spec (IndexService.create (2 ^ k) here) (s.index here) region
    obtain ⟨rightNode, leftNode, parentNode⟩ :=
      asked_mem (s.index here) region member
    simp only [LocationInfo.lists_addParts]
    -- what one of the three calls is asked for is found there
    have call {t : State α V} {addr : HierarchyAddress} {part : Finset α}
        {result : LocationInfo α × State α V} (node : part ≠ ∅ → (overlay k).Mem addr)
        (same : CachesOnly s t) (found : x ∈ part)
        (asked : ask (locate (2 ^ k) fuel) t addr part = some result) :
        ∃ rank, result.1.Lists rank x := by
      have nonempty := Finset.ne_empty_of_mem found
      rw [ask, if_neg nonempty] at asked
      exact ih (node nonempty) (same.grid x ▸ routed) (same.full leaf ▸ held) found asked
    have same := (ask_caches (fun nonempty => (rightNode nonempty).2.2) first).caches
    have same' := same.trans (ask_caches (fun nonempty => (leftNode nonempty).2.2) second).caches
    by_cases own : (s.index here).Here (IndexService.create (2 ^ k) here) x
    · exact ⟨_, Or.inl (Or.inl (Or.inl (spec.here wanted own)))⟩
    by_cases stored : ∃ rank, (s.index here).locationCache.Lists rank x
    · obtain ⟨rank, stored⟩ := stored
      obtain ⟨rank, listed⟩ := spec.cached wanted stored
      exact ⟨rank, Or.inl (Or.inl (Or.inl listed))⟩
    have isOpen : (s.index here).Open (IndexService.create (2 ^ k) here) region x :=
      ⟨wanted, own, not_exists.mp stored⟩
    by_cases onRight : here.isLeaf = false ∧ x ∈ (s.index here).right
    · obtain ⟨rank, listed⟩ := call (fun nonempty => (rightNode nonempty).2.2) (.refl s)
        (spec.right.mpr ⟨isOpen, onRight.1, onRight.2⟩) first
      exact ⟨rank, Or.inl (Or.inl (Or.inr listed))⟩
    by_cases onLeft : here.isLeaf = false ∧ x ∈ (s.index here).left
    · obtain ⟨rank, listed⟩ := call (fun nonempty => (leftNode nonempty).2.2) same
        (spec.left.mpr ⟨isOpen, onLeft.1, fun other => onRight ⟨onLeft.1, other⟩, onLeft.2⟩) second
      exact ⟨rank, Or.inl (Or.inr listed)⟩
    -- what is not known at a node is not at the root
    have unrecorded (virtual : here.isLeaf = false) :
        x ∉ (s.index here).right ∧ x ∉ (s.index here).left :=
      ⟨fun found => onRight ⟨virtual, found⟩, fun found => onLeft ⟨virtual, found⟩⟩
    have notRoot : here ≠ (overlay k).root := by
      intro isRoot
      obtain ⟨atLeaf, inner⟩ := known_at_root routed owner low held isRoot
      cases flat : here.isLeaf with
      | true => exact own ⟨flat, atLeaf flat⟩
      | false => exact (inner flat).elim (unrecorded flat).1 (unrecorded flat).2
    have isRoot : (IndexService.create (2 ^ k) here).isRoot = false := by
      rw [← Bool.not_eq_true]
      exact fun h => notRoot (IndexService.isRoot_create.mp h)
    obtain ⟨rank, listed⟩ := call (fun nonempty => (parentNode nonempty).2) same'
      (spec.parent.mpr ⟨isOpen, isRoot, unrecorded⟩) third
    exact ⟨rank, Or.inr listed⟩

end State

end AllScale
