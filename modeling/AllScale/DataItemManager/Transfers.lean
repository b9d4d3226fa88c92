import AllScale.Lib.TokenOwner
import AllScale.DataItemManager.Grid

/-!
# Who sends what

The location info that the cascade of an acquire collects lists every missing element under the
rank of the leaf that loses it, provided that leaf has memory for the element; the stored data
itself is left alone until the transfers that follow. Transfers copy every listed element to the
target and, when they migrate it, take it from its source and from nobody else.
-/

namespace AllScale

open TokenTree HierarchyAddress

variable {α V : Type} {k : Nat}

/-- Two states with the same fragments. -/
def SameFragments (s s' : State α V) : Prop :=
  ∀ rank, (s'.items rank).fragment = (s.items rank).fragment

/-- Having the same fragments is transitive. -/
theorem SameFragments.trans {s t u : State α V} (first : SameFragments s t)
    (second : SameFragments t u) : SameFragments s u :=
  fun rank => (second rank).trans (first rank)

/-- The part of a missing region that is collected from leaves, given for each element the leaf
it is collected from. -/
structure CollectedFrom (s : State α V) (missing : Finset α)
    (source : α → Option HierarchyAddress) (result : LocationInfo α × State α V) : Prop where
  /-- An element is listed under the rank of the leaf it is collected from. -/
  listed : ∀ rank x, result.1.Lists rank x ↔
    x ∈ missing ∧ ∃ leaf, leaf.rank = rank ∧ source x = some leaf
  /-- The fragments are left alone. -/
  fragments : SameFragments s result.2

/-- Every element that is collected is covered by the fragment of the leaf it is collected
from. -/
def CoveredBy (s : State α V) (missing : Finset α) (source : α → Option HierarchyAddress) : Prop :=
  ∀ x ∈ missing, ∀ leaf, source x = some leaf →
    x ∈ (s.items leaf.rank).fragment.coveredRegion

/-- What is covered is covered in a state with the same fragments, by the same leaves. -/
theorem CoveredBy.of_same {s t : State α V} {missing part : Finset α}
    {source source' : α → Option HierarchyAddress} (covered : CoveredBy s missing source)
    (same : SameFragments s t) (inside : part ⊆ missing)
    (sources : ∀ x ∈ part, source x = source' x) : CoveredBy t part source' := by
  intro x found leaf from'
  rw [same]
  exact covered x (inside found) leaf ((sources x found).trans from')

namespace CollectedFrom

/-- A call that is left out for an empty region collects nothing. -/
theorem ite {s : State α V} {missing : Finset α} {source : α → Option HierarchyAddress}
    {left : Prop} [Decidable left] {result : LocationInfo α × State α V}
    (nothing : left → ∀ x ∈ missing, source x = none)
    (collected : ¬ left → CollectedFrom s missing source result) :
    CollectedFrom s missing source (if left then (LocationInfo.empty, s) else result) := by
  by_cases h : left
  · rw [if_pos h]
    refine ⟨fun rank x => ⟨fun found => absurd found (LocationInfo.not_lists_empty rank x), ?_⟩,
      fun _ => rfl⟩
    rintro ⟨inside, leaf, -, origin⟩
    rw [nothing h x inside] at origin
    exact absurd origin (by simp)
  · rw [if_neg h]
    exact collected h

/-- The leaves matter for missing elements only. -/
theorem congr {s : State α V} {missing : Finset α} {source source' : α → Option HierarchyAddress}
    {result : LocationInfo α × State α V} (collected : CollectedFrom s missing source result)
    (same : ∀ x ∈ missing, source x = source' x) : CollectedFrom s missing source' result := by
  refine ⟨fun rank x => ?_, collected.fragments⟩
  rw [collected.listed]
  exact and_congr_right fun inside => by rw [same x inside]

/-- Two collections one after the other, with their results merged. -/
theorem merge [DecidableEq α] {s t : State α V} {missing first second : Finset α}
    {source : α → Option HierarchyAddress} {one two : LocationInfo α × State α V}
    (start : SameFragments s t) (left : CollectedFrom t first source one)
    (right : CollectedFrom one.2 second source two) (inside : first ⊆ missing)
    (inside' : second ⊆ missing)
    (all : ∀ x ∈ missing, source x ≠ none → x ∈ first ∨ x ∈ second) :
    CollectedFrom s missing source
      (((LocationInfo.empty.addParts one.1).addParts two.1), two.2) := by
  refine ⟨fun rank x => ?_, (start.trans left.fragments).trans right.fragments⟩
  simp only [LocationInfo.lists_addParts, LocationInfo.not_lists_empty, false_or, left.listed,
    right.listed]
  constructor
  · rintro (⟨found, origin⟩ | ⟨found, origin⟩)
    · exact ⟨inside found, origin⟩
    · exact ⟨inside' found, origin⟩
  · rintro ⟨found, leaf, place, origin⟩
    exact (all x found (by simp [origin])).imp (fun h => ⟨h, leaf, place, origin⟩)
      fun h => ⟨h, leaf, place, origin⟩

end CollectedFrom

variable [DecidableEq α]

namespace State

/-! ## The cascade -/

/-- A leaf lists what it is asked for. -/
theorem collected_leaf (k : Nat) (s : State α V) (here : HierarchyAddress) (missing : Finset α)
    (memory : missing ⊆ (s.items here.rank).fragment.coveredRegion) :
    CollectedFrom s missing (fun x => (overlay k).trail (s.grid x) 0 here)
      (s.collectChildOwnerships (2 ^ k) 0 here missing) := by
  have kept (rank : Nat) (item : DataItem α V)
      (same : item.fragment = (s.items here.rank).fragment) :
      (Function.update s.items here.rank item rank).fragment = (s.items rank).fragment := by
    by_cases h : rank = here.rank
    · rw [h, Function.update_self, same]
    · rw [Function.update_of_ne h]
  simp only [collectChildOwnerships]
  split
  · refine ⟨fun rank x => ?_, fun rank => kept rank _ rfl⟩
    simp only [LocationInfo.lists_addPart, LocationInfo.not_lists_empty, false_or,
      LayeredTree.trail, Option.some.injEq, exists_eq_right']
    rw [and_comm, eq_comm]
  · exact absurd memory ‹_›

/-- A child is asked for a part for which the records lead to it: it collects the part from the
leaves to which the records of the node lead. -/
theorem collected_child {layer : Nat} {s t : State α V} {here : HierarchyAddress} {side : Side}
    {missing part : Finset α} {result : LocationInfo α × State α V}
    (node : (overlay k).Mem ((overlay k).child side here))
    (height : (overlay k).layer ((overlay k).child side here) = layer)
    (outside : ¬ (overlay k).Above ((overlay k).child side here) here)
    (covered : CoveredBy s missing fun x => (overlay k).trail (s.grid x) (layer + 1) here)
    (inside : part ⊆ missing) (same : SameFragments s t)
    (cells : ∀ x ∈ part, ∃ c, t.grid x = Function.update (s.grid x) here c)
    (turns : ∀ x ∈ part, (overlay k).trail (s.grid x) (layer + 1) here =
      (overlay k).trail (s.grid x) layer ((overlay k).child side here))
    (collects : CoveredBy t part
        (fun x => (overlay k).trail (t.grid x) layer ((overlay k).child side here)) →
      CollectedFrom t part
        (fun x => (overlay k).trail (t.grid x) layer ((overlay k).child side here)) result) :
    CollectedFrom t part (fun x => (overlay k).trail (s.grid x) (layer + 1) here)
      (if part = ∅ then (LocationInfo.empty, t) else result) := by
  have agree : ∀ x ∈ part, (overlay k).trail (s.grid x) (layer + 1) here =
      (overlay k).trail (t.grid x) layer ((overlay k).child side here) := by
    intro x found
    obtain ⟨c, update⟩ := cells x found
    rw [turns x found, update, LayeredTree.trail_update node height outside]
  apply CollectedFrom.ite
  · intro empty x found
    exact absurd found (empty ▸ Finset.notMem_empty x)
  · intro _
    exact (collects (covered.of_same same inside agree)).congr fun x found => (agree x found).symm

/-- Collecting lists every element under the leaf to which the records lead. -/
theorem collected_collectChildOwnerships (layer : Nat) (s : State α V) (here : HierarchyAddress)
    (missing : Finset α) (member : (overlay k).Mem here)
    (height : (overlay k).layer here = layer)
    (covered : CoveredBy s missing fun x => (overlay k).trail (s.grid x) layer here) :
    CollectedFrom s missing (fun x => (overlay k).trail (s.grid x) layer here)
      (s.collectChildOwnerships (2 ^ k) layer here missing) := by
  induction layer generalizing s here missing with
  | zero => exact collected_leaf k s here missing fun x inside => covered x inside here rfl
  | succ layer ih =>
    have inner : (overlay k).layer here ≠ 0 := by omega
    have node (side : Side) := (overlay k).child_mem side member inner
    have below (side : Side) : (overlay k).layer ((overlay k).child side here) = layer := by
      have := (overlay k).layer_child side member inner
      omega
    have outside (side : Side) : ¬ (overlay k).Above ((overlay k).child side here) here :=
      fun above => (above.ne_of_child member member inner) rfl
    simp only [collectChildOwnerships, IndexService.right_create member inner,
      IndexService.left_create inner]
    generalize claim : (s.index here).collectChildOwnerships missing = claimed
    have right {x : α} : x ∈ claimed.right ↔ x ∈ missing ∧
        ((s.index here).cell x).left = false ∧ ((s.index here).cell x).right = true := by
      rw [← claim]
      exact IndexEntry.mem_right_collect
    have left {x : α} : x ∈ claimed.left ↔ x ∈ missing ∧ ((s.index here).cell x).left = true := by
      rw [← claim]
      exact IndexEntry.mem_left_collect
    have start : SameFragments s (s.setEntry here claimed.entry) := fun _ => rfl
    have first := collected_child (node .right) (below .right) (outside .right) covered
      (fun x found => (right.mp found).1) start (fun x _ => ⟨_, grid_setEntry x s here _⟩)
      (fun x found => by
        obtain ⟨-, free, taken⟩ := right.mp found
        rw [LayeredTree.trail, grid_apply, if_neg (Bool.eq_false_iff.mp free), if_pos taken])
      (ih _ _ claimed.right (node .right) (below .right))
    have untouched (x : α) (found : x ∈ claimed.left) : x ∉ claimed.right := fun other => by
      have taken := (left.mp found).2
      rw [(right.mp other).2.1] at taken
      exact Bool.noConfusion taken
    have second := collected_child (node .left) (below .left) (outside .left) covered
      (fun x found => (left.mp found).1) (start.trans first.fragments)
      (fun x found => ⟨_, by
        split
        · exact grid_setEntry x s here _
        · rw [grid_collectChildOwnerships x _ _ _ _ (node .right) (below .right),
            if_neg (untouched x found), grid_setEntry]⟩)
      (fun x found => by rw [LayeredTree.trail, grid_apply, if_pos (left.mp found).2])
      (ih _ _ claimed.left (node .left) (below .left))
    refine CollectedFrom.merge start first second (fun x found => (right.mp found).1)
      (fun x found => (left.mp found).1) fun x inside leads => ?_
    rw [right, left]
    rw [LayeredTree.trail, grid_apply] at leads
    cases taken : ((s.index here).cell x).left with
    | true => exact Or.inr ⟨inside, rfl⟩
    | false =>
      cases other : ((s.index here).cell x).right with
      | true => exact Or.inl ⟨inside, rfl, rfl⟩
      | false =>
        rw [taken, other] at leads
        exact absurd rfl leads

/-- What a node that acquires ownership for a child expects of the call of its parent, where
`above` is the leaf that the rest of the claim evicts. -/
structure Asks (k height : Nat) (here : HierarchyAddress) (side : Side)
    (above : Grid HierarchyAddress → Option HierarchyAddress)
    (ask : State α V → HierarchyAddress → HierarchyAddress → Finset α →
      LocationInfo α × State α V) : Prop where
  /-- The call lists every element under the leaf it is evicted from. -/
  collects : ∀ t region, here ≠ (overlay k).root → CoveredBy t region (fun x => above (t.grid x)) →
    CollectedFrom t region (fun x => above (t.grid x)) (ask t here.getParent here region)
  /-- The call leaves other elements alone. -/
  spares : ∀ t region x, here ≠ (overlay k).root → x ∉ region →
    (ask t here.getParent here region).2.grid x = t.grid x
  /-- What the rest of the claim evicts does not depend on this node. -/
  elsewhere : ∀ (g : Grid HierarchyAddress) c, here ≠ (overlay k).root →
    above (Function.update g here c) = above g
  /-- An element without a record for the other child is evicted further up. -/
  passes : ∀ g : Grid HierarchyAddress, (g here).on side.other = false →
    (overlay k).evicted height g here side = if here = (overlay k).root then none else above g

namespace Asks

variable {height : Nat} {here : HierarchyAddress} {side : Side}
  {above : Grid HierarchyAddress → Option HierarchyAddress}
  {ask : State α V → HierarchyAddress → HierarchyAddress → Finset α → LocationInfo α × State α V}
  {s : State α V} {rest missing : Finset α}

/-- The call of the parent, which is left out at the root and for an empty region, collects what is
not on record for the other child. -/
theorem collected (asks : Asks k height here side above ask) (entry : IndexEntry α)
    (inside : rest ⊆ missing) (free : ∀ x ∈ rest, (s.grid x here).on side.other = false)
    (covered : CoveredBy s missing fun x => (overlay k).evicted height (s.grid x) here side) :
    CollectedFrom (s.setEntry here entry) rest
      (fun x => (overlay k).evicted height (s.grid x) here side)
      (if rest = ∅ ∨ (IndexService.create (2 ^ k) here).isRoot = true
        then (LocationInfo.empty, s.setEntry here entry)
        else ask (s.setEntry here entry) (IndexService.create (2 ^ k) here).parent here rest) := by
  refine .ite (fun skip x found => ?_) fun goes => ?_
  · rcases skip with none | isRoot
    · exact absurd found (none ▸ Finset.notMem_empty x)
    · rw [asks.passes _ (free x found), if_pos (IndexService.isRoot_create.mp isRoot)]
  · have notRoot : here ≠ (overlay k).root := fun h =>
      goes (Or.inr (IndexService.isRoot_create.mpr h))
    have upwards : ∀ x ∈ rest, (overlay k).evicted height (s.grid x) here side =
        above ((s.setEntry here entry).grid x) := by
      intro x found
      rw [asks.passes _ (free x found), if_neg notRoot, grid_setEntry, asks.elsewhere _ _ notRoot]
    have start : SameFragments s (s.setEntry here entry) := fun _ => rfl
    exact (asks.collects _ _ notRoot (covered.of_same start inside upwards)).congr
      fun x found => (upwards x found).symm

/-- What the parent is not asked for changes in the entry of the node only. -/
theorem spared (asks : Asks k height here side above ask) (entry : IndexEntry α) {x : α}
    (outside : x ∉ rest) :
    (if rest = ∅ ∨ (IndexService.create (2 ^ k) here).isRoot = true
      then (LocationInfo.empty, s.setEntry here entry)
      else ask (s.setEntry here entry) (IndexService.create (2 ^ k) here).parent here
        rest).2.grid x = Function.update (s.grid x) here (entry.cell x) := by
  rw [← grid_setEntry]
  split
  · rfl
  · rename_i goes
    exact asks.spares _ _ x (fun h => goes (Or.inr (IndexService.isRoot_create.mpr h))) outside

/-- One node that acquires ownership for a child lists what a claim evicts. -/
theorem collected_acquireOwnershipAt (asks : Asks k height here side above ask)
    (member : (overlay k).Mem here) (inner : (overlay k).layer here ≠ 0)
    (covered : CoveredBy s missing fun x => (overlay k).evicted height (s.grid x) here side) :
    CollectedFrom s missing (fun x => (overlay k).evicted height (s.grid x) here side)
      (s.acquireOwnershipAt (2 ^ k) ask here ((overlay k).child side here) missing) := by
  have place := beq_right_eq side member inner
  have other := (overlay k).child_mem side.other member inner
  have outside : ¬ (overlay k).Above ((overlay k).child side.other here) here :=
    fun above => (above.ne_of_child member member inner) rfl
  simp only [acquireOwnershipAt, newChild_eq side member inner]
  generalize claim : (s.index here).acquireOwnershipFor (.create (2 ^ k) here)
    ((overlay k).child side here) missing = claimed
  have part {x : α} : x ∈ claimed.part ↔ x ∈ missing ∧ (s.grid x here).on side.other = true := by
    rw [← claim]
    exact IndexEntry.mem_part place
  have rest {x : α} : x ∈ claimed.missing ↔
      x ∈ missing ∧ (s.grid x here).on side.other = false := by
    rw [← claim]
    exact IndexEntry.mem_missing place
  have start : SameFragments s (s.setEntry here claimed.entry) := fun _ => rfl
  -- what goes on to the parent is evicted there
  have upper := asks.collected claimed.entry (fun x found => (rest.mp found).1)
    (fun x found => (rest.mp found).2) covered
  have spared (x : α) (found : x ∈ claimed.part) := asks.spared (s := s) claimed.entry
    fun remains : x ∈ claimed.missing => by
      have taken := (part.mp found).2
      rw [(rest.mp remains).2] at taken
      exact Bool.noConfusion taken
  generalize (if claimed.missing = ∅ ∨ (IndexService.create (2 ^ k) here).isRoot = true
    then (LocationInfo.empty, s.setEntry here claimed.entry)
    else ask (s.setEntry here claimed.entry) (IndexService.create (2 ^ k) here).parent here
      claimed.missing) = up at upper spared ⊢
  -- what is on record for the other child is evicted below it
  have downwards (x : α) (found : x ∈ claimed.part) :
      (overlay k).evicted height (s.grid x) here side =
        (overlay k).trail (up.2.grid x) ((overlay k).layer ((overlay k).child side.other here))
          ((overlay k).child side.other here) := by
    rw [spared x found, LayeredTree.trail_update other rfl outside,
      LayeredTree.evicted_of_taken (part.mp found).2]
  have lower : CollectedFrom up.2 claimed.part
      (fun x => (overlay k).evicted height (s.grid x) here side)
      (if claimed.part = ∅ then (LocationInfo.empty, up.2)
        else collectChildOwnerships (2 ^ k) ((overlay k).child side.other here).layer up.2
          ((overlay k).child side.other here) claimed.part) := by
    refine .ite (fun empty x found => absurd found (empty ▸ Finset.notMem_empty x)) fun _ => ?_
    exact (collected_collectChildOwnerships _ _ _ _ other rfl
      (covered.of_same (start.trans upper.fragments) (fun x found => (part.mp found).1)
        downwards)).congr fun x found => (downwards x found).symm
  refine CollectedFrom.merge start upper lower (fun x found => (rest.mp found).1)
    (fun x found => (part.mp found).1) fun x inside _ => ?_
  rw [rest, part]
  cases (s.grid x here).on side.other with
  | true => exact Or.inr ⟨inside, rfl⟩
  | false => exact Or.inl ⟨inside, rfl⟩

end Asks

/-- Acquiring ownership for a child lists every missing element under the leaf it is evicted
from. -/
theorem collected_acquireOwnershipFor (height : Nat) (s : State α V) (here : HierarchyAddress)
    (side : Side) (missing : Finset α) (member : (overlay k).Mem here)
    (inner : (overlay k).layer here ≠ 0)
    (covered : CoveredBy s missing fun x => (overlay k).evicted height (s.grid x) here side) :
    CollectedFrom s missing (fun x => (overlay k).evicted height (s.grid x) here side)
      (s.acquireOwnershipFor (2 ^ k) height here ((overlay k).child side here) missing) := by
  induction height generalizing s here side missing with
  | zero =>
    have asks : Asks k 0 here side (fun _ => none)
        fun (s : State α V) _ _ _ => (LocationInfo.empty, s) := by
      constructor
      · exact fun t region _ _ => ⟨fun rank x => by simp, fun _ => rfl⟩
      · exact fun _ _ _ _ _ => rfl
      · exact fun _ _ _ => rfl
      · exact fun g free => by simp [LayeredTree.evicted, free]
    exact asks.collected_acquireOwnershipAt member inner covered
  | succ height ih =>
    have asks : Asks k (height + 1) here side
        (fun g => (overlay k).evicted height g here.getParent here.getSide)
        (State.acquireOwnershipFor (α := α) (V := V) (2 ^ k) height) := by
      have back (notRoot : here ≠ (overlay k).root) :
          (overlay k).child here.getSide here.getParent = here :=
        (overlay k).child_side member notRoot
      constructor
      · intro t region notRoot covered
        have collected := ih t here.getParent here.getSide region
          ((overlay k).parent_mem member notRoot) ((overlay k).layer_parent_ne_zero member notRoot)
          covered
        rwa [back notRoot] at collected
      · intro t region x notRoot outside
        have moved := grid_acquireOwnershipFor x height t here.getParent here.getSide region
          ((overlay k).parent_mem member notRoot) ((overlay k).layer_parent_ne_zero member notRoot)
        rw [back notRoot] at moved
        rw [moved, if_neg outside]
      · intro g c notRoot
        have below : (overlay k).Above ((overlay k).child here.getSide here.getParent) here := by
          rw [back notRoot]
          exact .refl _
        exact LayeredTree.evicted_update member ((overlay k).parent_mem member notRoot)
          ((overlay k).layer_parent_ne_zero member notRoot) below
      · intro g free
        rw [LayeredTree.evicted, if_neg (Bool.eq_false_iff.mp free)]
        rfl
    exact asks.collected_acquireOwnershipAt member inner covered

/-- Acquiring ownership at a leaf lists every missing element under the leaf that is ousted. -/
theorem collected_acquireOwnership (s : State α V) (leaf : HierarchyAddress) (missing : Finset α)
    (member : (overlay k).Mem leaf)
    (covered : CoveredBy s missing fun x => (overlay k).ousted (s.grid x) leaf) :
    CollectedFrom s missing (fun x => (overlay k).ousted (s.grid x) leaf)
      (s.acquireOwnership (2 ^ k) leaf missing) := by
  have start : SameFragments s (s.setEntry leaf ((s.index leaf).acquireOwnership missing)) :=
    fun _ => rfl
  simp only [acquireOwnership]
  split
  · rename_i isRoot
    refine ⟨fun rank x => ⟨fun found => absurd found (LocationInfo.not_lists_empty rank x), ?_⟩,
      start⟩
    rintro ⟨-, source, -, ousted⟩
    rw [LayeredTree.ousted, if_pos (IndexService.isRoot_create.mp isRoot)] at ousted
    exact absurd ousted (by simp)
  · rename_i inner
    have notRoot : leaf ≠ (overlay k).root := fun h => inner (IndexService.isRoot_create.mpr h)
    have high := (overlay k).parent_mem member notRoot
    have virtual := (overlay k).layer_parent_ne_zero member notRoot
    have back : (overlay k).child leaf.getSide leaf.getParent = leaf :=
      (overlay k).child_side member notRoot
    have same (x : α) : (overlay k).ousted (s.grid x) leaf =
        (overlay k).evicted ((getRootOfNetworkSize (2 ^ k)).layer - leaf.getParent.layer)
          ((s.setEntry leaf ((s.index leaf).acquireOwnership missing)).grid x) leaf.getParent
          leaf.getSide := by
      have below : (overlay k).Above ((overlay k).child leaf.getSide leaf.getParent) leaf := by
        rw [back]
        exact .refl _
      rw [grid_setEntry, LayeredTree.ousted, if_neg notRoot]
      exact (LayeredTree.evicted_update member high virtual below).symm
    have collected := collected_acquireOwnershipFor _ _ leaf.getParent leaf.getSide missing high
      virtual (covered.of_same start (Finset.Subset.refl _) fun x _ => same x)
    rw [back] at collected
    have moved := collected.congr fun x _ => (same x).symm
    exact ⟨moved.listed, start.trans moved.fragments⟩

/-! ## The transfers -/

/-- One transfer copies a region that the source covers, and takes it from the source when it
migrates. -/
theorem items_transfer {s : State α V} {source target : Nat} {region : Finset α} (migrate : Bool)
    (different : source ≠ target)
    (covered : region ⊆ (s.items source).fragment.coveredRegion) :
    ((s.transfer source target region migrate).items target).fragment =
        ⟨(s.items target).fragment.coveredRegion, fun x =>
          if x ∈ region then (s.items source).fragment.value x
          else (s.items target).fragment.value x⟩ ∧
      ((s.transfer source target region migrate).items source).fragment =
        (if migrate then
          (s.items source).fragment.resize ((s.items source).fragment.coveredRegion \ region)
        else (s.items source).fragment) ∧
      ∀ rank, rank ≠ source → rank ≠ target →
        ((s.transfer source target region migrate).items rank).fragment =
          (s.items rank).fragment := by
  simp only [transfer, DataItemView.save, if_pos covered, items_setItem, Function.update_self,
    Function.update_of_ne different]
  refine ⟨?_, ?_, fun rank notSource notTarget => ?_⟩
  · cases migrate <;>
      simp [DataItemView.load, Fragment.insert, Fragment.extract,
        Function.update_of_ne different.symm]
  · cases migrate <;> rfl
  · rw [Function.update_of_ne notTarget, Function.update_of_ne notSource]

/-- What a list of transfers to a target moves. `listed` are the parts by rank, the target's own
left out. -/
structure Moved (s s' : State α V) (target : Nat) (migrate : Bool) (listed : Nat → α → Prop) :
    Prop where
  /-- The target has the memory it had. -/
  memory : (s'.items target).fragment.coveredRegion = (s.items target).fragment.coveredRegion
  /-- What is listed for another rank has the value it has there. -/
  received : ∀ rank x, rank ≠ target → listed rank x →
    (s'.items target).fragment.value x = (s.items rank).fragment.value x
  /-- What is listed for no other rank has the value it had. -/
  unchanged : ∀ x, (∀ rank, rank ≠ target → ¬ listed rank x) →
    (s'.items target).fragment.value x = (s.items target).fragment.value x
  /-- Another rank keeps what is not listed for it. -/
  kept : ∀ rank x, rank ≠ target → x ∈ (s.items rank).fragment.coveredRegion → ¬ listed rank x →
    x ∈ (s'.items rank).fragment.coveredRegion ∧
      (s'.items rank).fragment.value x = (s.items rank).fragment.value x
  /-- Copies leave their sources alone. -/
  copied : migrate = false → ∀ rank, rank ≠ target →
    (s'.items rank).fragment = (s.items rank).fragment

omit [DecidableEq α] in
/-- Only the stored data matter for what has been moved. -/
theorem Moved.of_items {s u s' : State α V} {target : Nat} {migrate : Bool}
    {listed : Nat → α → Prop} (moved : Moved u s' target migrate listed)
    (same : u.items = s.items) : Moved s s' target migrate listed where
  memory := same ▸ moved.memory
  received := same ▸ moved.received
  unchanged := same ▸ moved.unchanged
  kept := same ▸ moved.kept
  copied := same ▸ moved.copied

omit [DecidableEq α] in
/-- What is listed for the target does not matter. -/
theorem Moved.congr {s s' : State α V} {target : Nat} {migrate : Bool}
    {listed listed' : Nat → α → Prop} (moved : Moved s s' target migrate listed)
    (same : ∀ rank x, rank ≠ target → (listed' rank x ↔ listed rank x)) :
    Moved s s' target migrate listed' where
  memory := moved.memory
  received rank x other found := moved.received rank x other ((same rank x other).mp found)
  unchanged x unlisted := moved.unchanged x fun rank other found =>
    unlisted rank other ((same rank x other).mpr found)
  kept rank x other found unlisted := moved.kept rank x other found fun listed =>
    unlisted ((same rank x other).mpr listed)
  copied := moved.copied

/-- A transfer before others moves its region, when the others list nothing of it. -/
theorem Moved.after_transfer {s s' : State α V} {source target : Nat} {migrate : Bool}
    {region : Finset α} {listed : Nat → α → Prop} (different : source ≠ target)
    (covered : region ⊆ (s.items source).fragment.coveredRegion)
    (moved : Moved (s.transfer source target region migrate) s' target migrate listed)
    (later : ∀ rank x, listed rank x → rank ≠ source ∧ x ∉ region) :
    Moved s s' target migrate fun rank x => rank = source ∧ x ∈ region ∨ listed rank x := by
  obtain ⟨atTarget, atSource, elsewhere⟩ := items_transfer migrate different covered
  constructor
  · rw [moved.memory, atTarget]
  · rintro rank x other (⟨rfl, inside⟩ | found)
    · -- no later part overwrites the element
      have last := moved.unchanged x fun key _ found => (later key x found).2 inside
      rw [last, atTarget]
      exact if_pos inside
    · rw [moved.received rank x other found, elsewhere rank (later rank x found).1 other]
  · intro x unlisted
    have last := moved.unchanged x fun rank other found => unlisted rank other (Or.inr found)
    rw [last, atTarget]
    exact if_neg fun inside => unlisted source different (Or.inl ⟨rfl, inside⟩)
  · intro rank x other found unlisted
    rw [not_or] at unlisted
    have here :
        x ∈ ((s.transfer source target region migrate).items rank).fragment.coveredRegion ∧
          ((s.transfer source target region migrate).items rank).fragment.value x =
            (s.items rank).fragment.value x := by
      by_cases same : rank = source
      · subst same
        have outside : x ∉ region := fun inside => unlisted.1 ⟨rfl, inside⟩
        rw [atSource]
        cases migrate <;> simp [Fragment.resize, found, outside]
      · rw [elsewhere rank same other]
        exact ⟨found, rfl⟩
    obtain ⟨stays, value⟩ := moved.kept rank x other here.1 unlisted.2
    exact ⟨stays, value.trans here.2⟩
  · intro copies rank other
    rw [moved.copied copies rank other]
    by_cases same : rank = source
    · subst same
      rw [atSource, copies]
      rfl
    · exact elsewhere rank same other

/-- Transfers move every listed element, when each is listed under one rank which covers it. -/
theorem moved_transfers (target : Nat) (migrate : Bool) (parts : List (Nat × Finset α))
    (s : State α V) (nodup : (parts.map Prod.fst).Nodup)
    (covered : ∀ part ∈ parts, part.1 ≠ target →
      part.2 ⊆ (s.items part.1).fragment.coveredRegion)
    (once : ∀ first ∈ parts, ∀ second ∈ parts, ∀ x, x ∈ first.2 → x ∈ second.2 →
      first.1 = second.1) :
    Moved s (s.transfers target migrate parts) target migrate
      fun rank x => ∃ region, (rank, region) ∈ parts ∧ x ∈ region := by
  induction parts generalizing s with
  | nil =>
    exact ⟨rfl, by simp, fun _ _ => rfl, fun _ _ _ found _ => ⟨found, rfl⟩, fun _ _ _ => rfl⟩
  | cons part rest ih =>
    obtain ⟨source, region⟩ := part
    rw [List.map_cons, List.nodup_cons] at nodup
    have later {rank : Nat} {old : Finset α} (found : (rank, old) ∈ rest) : rank ≠ source := by
      rintro rfl
      exact nodup.1 (List.mem_map.mpr ⟨(rank, old), found, rfl⟩)
    have onceRest := fun first found second found' =>
      once first (List.mem_cons_of_mem _ found) second (List.mem_cons_of_mem _ found')
    have first : s.transfers target migrate ((source, region) :: rest) =
        (if source = target then s else s.transfer source target region migrate).transfers target
          migrate rest := rfl
    rw [first]
    by_cases own : source = target
    · rw [if_pos own]
      have moved := ih s nodup.2 (fun part found => covered part (List.mem_cons_of_mem _ found))
        onceRest
      apply moved.congr
      intro rank x other
      have away : rank ≠ source := fun h => other (h.trans own)
      simp [away]
    · rw [if_neg own]
      have memory : region ⊆ (s.items source).fragment.coveredRegion :=
        covered (source, region) List.mem_cons_self own
      have moved := ih (s.transfer source target region migrate) nodup.2
        (fun part found other => by
          rw [(items_transfer migrate own memory).2.2 part.1 (later found) other]
          exact covered part (List.mem_cons_of_mem _ found) other) onceRest
      have all := moved.after_transfer own memory fun rank x ⟨old, found, inside'⟩ =>
        ⟨later found, fun inside => later found
          (once _ (List.mem_cons_of_mem _ found) _ List.mem_cons_self x inside' inside)⟩
      apply all.congr
      intro rank x _
      simp only [List.mem_cons, Prod.mk.injEq, or_and_right, exists_or, and_assoc,
        exists_and_left, exists_eq_left]

end State

end AllScale
