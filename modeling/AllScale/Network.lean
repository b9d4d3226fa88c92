import AllScale.Hierarchy

/-!
# Networks of any size

A network has the addresses of the overlay of the next power of two whose ranks it has. They form a
tree that misses some right children: every address is reached from the root by exactly one way down
that turns to the right only where the right child has a rank of the network.
-/

namespace AllScale

open TokenTree

namespace HierarchyAddress

/-- `HierarchyAddress::check` — the last `layer` bits of the rank are zero. -/
def check (addr : HierarchyAddress) : Bool :=
  (List.range addr.layer).all fun i => !((addr.rank >>> i) % 2 != 0)

/-- Where a way down from the root leads: to the left, or to the right when the rank of the right
child is a rank of the network. The latest turn comes first. -/
def reach (size : Nat) : List Side → Option HierarchyAddress
  | [] => some (getRootOfNetworkSize size)
  | s :: path => do
    let addr ← reach size path
    if addr.isLeaf then none
    else
      match s with
      | .left => some addr.getLeftChild
      | .right => if addr.getRightChild.rank < size then some addr.getRightChild else none

/-! ## The addresses of a network -/

/-- A check succeeds when the power of two of the layer divides the rank. -/
theorem check_iff {addr : HierarchyAddress} : addr.check = true ↔ 2 ^ addr.layer ∣ addr.rank := by
  obtain ⟨rank, layer⟩ := addr
  unfold check
  rw [List.all_eq_true]
  induction layer with
  | zero => simp
  | succ layer ih =>
    have split : 2 ^ (layer + 1) ∣ rank ↔ 2 ^ layer ∣ rank ∧ (rank >>> layer) % 2 = 0 := by
      rw [Nat.shiftRight_eq_div_pow, ← Nat.dvd_iff_mod_eq_zero]
      constructor
      · intro divides
        have lower : 2 ^ layer ∣ rank :=
          Nat.dvd_trans (Nat.pow_dvd_pow 2 (Nat.le_succ layer)) divides
        refine ⟨lower, (Nat.dvd_div_iff_mul_dvd lower).mpr ?_⟩
        rwa [← Nat.pow_succ]
      · rintro ⟨lower, even⟩
        have whole := (Nat.dvd_div_iff_mul_dvd lower).mp even
        rwa [← Nat.pow_succ] at whole
    rw [split, ← ih]
    constructor
    · intro all
      refine ⟨fun i found => ?_, ?_⟩
      · apply all i
        have below : i < layer := List.mem_range.mp found
        exact List.mem_range.mpr (Nat.lt_succ_of_lt below)
      · simpa using all layer (List.mem_range.mpr (Nat.lt_succ_self layer))
    · rintro ⟨lower, even⟩ i found
      have below : i < layer + 1 := List.mem_range.mp found
      by_cases last : i = layer
      · rw [last]
        simpa using even
      · apply lower i
        exact List.mem_range.mpr (show i < layer by omega)

/-- The addresses of a network are those of the overlay whose ranks it has. -/
theorem inNetwork_iff_mem {size : Nat} {addr : HierarchyAddress} :
    InNetwork size addr ↔ (overlay (height size)).Mem addr ∧ addr.rank < size := by
  have reached := (height_le_iff size _).mp (Nat.le_refl _)
  show _ ↔ InNetwork (2 ^ height size) addr ∧ _
  rw [inNetwork_iff, inNetwork_iff, height_two_pow]
  constructor
  · rintro ⟨bound, divides, low⟩
    exact ⟨⟨Nat.lt_of_lt_of_le bound reached, divides, low⟩, bound⟩
  · rintro ⟨⟨-, divides, low⟩, bound⟩
    exact ⟨bound, divides, low⟩

/-- The root of a network is the root of its overlay. -/
theorem root_overlay (size : Nat) :
    (overlay (height size)).root = getRootOfNetworkSize size := by
  show getRootOfNetworkSize (2 ^ height size) = _
  rw [getRootOfNetworkSize_eq, getRootOfNetworkSize_eq, height_two_pow]

/-- The ranks above an address are not greater than its own. -/
theorem rank_getParent_le {k : Nat} {addr : HierarchyAddress} (member : (overlay k).Mem addr) :
    addr.getParent.rank ≤ addr.rank := by
  obtain ⟨-, q, -, place⟩ := inNetwork_two_pow_iff.mp member
  obtain ⟨rank, layer⟩ := addr
  simp only at place
  subst place
  rw [getParent_mul]
  show q / 2 * 2 ^ (layer + 1) ≤ q * 2 ^ layer
  have half : q / 2 * 2 ≤ q := by omega
  calc
    q / 2 * 2 ^ (layer + 1) = q / 2 * 2 * 2 ^ layer := by rw [Nat.pow_succ]; ring
    _ ≤ q * 2 ^ layer := Nat.mul_le_mul_right _ half

/-- The ranks above a node are not greater than its own. -/
theorem rank_le_of_above {k : Nat} {addr above : HierarchyAddress} (member : (overlay k).Mem addr)
    (higher : (overlay k).Above above addr) : above.rank ≤ addr.rank := by
  induction higher with
  | refl => exact Nat.le_refl _
  | up higher notRoot ih =>
    exact Nat.le_trans (rank_getParent_le (higher.mem member)) (ih member)

/-- The rank of a node is in the network when the rank of one of its children is. -/
theorem rank_lt_of_getChild {k size : Nat} {addr : HierarchyAddress} (s : Side)
    (member : (overlay k).Mem addr) (inner : (overlay k).layer addr ≠ 0)
    (inside : (addr.getChild s).rank < size) : addr.rank < size := by
  have parent : (addr.getChild s).getParent = addr := (overlay k).parent_child s member inner
  have bound : (addr.getChild s).getParent.rank ≤ (addr.getChild s).rank :=
    rank_getParent_le ((overlay k).child_mem s member inner)
  rw [parent] at bound
  exact Nat.lt_of_le_of_lt bound inside

/-! ## Ways down -/

variable {size : Nat} {addr : HierarchyAddress} {path : List Side} {s : Side}

/-- One turn leads to a child of the overlay that is in the network. -/
theorem reach_cons_iff :
    reach size (s :: path) = some addr ↔
      ∃ above, reach size path = some above ∧ above.isLeaf = false ∧
        (s = .right → above.getRightChild.rank < size) ∧ above.getChild s = addr := by
  rw [reach]
  cases before : reach size path with
  | none => simp
  | some above =>
    cases leaf : above.isLeaf <;> cases s <;> simp [getChild, leaf]

/-- Every way down ends in the network. -/
theorem inNetwork_of_reach (nodes : 0 < size) (reached : reach size path = some addr) :
    InNetwork size addr := by
  induction path generalizing addr with
  | nil =>
    rw [← Option.some.inj reached, inNetwork_iff_mem, ← root_overlay]
    refine ⟨(overlay _).root_mem, ?_⟩
    rwa [root_overlay]
  | cons s path ih =>
    obtain ⟨above, before, virtual, turn, child⟩ := reach_cons_iff.mp reached
    obtain ⟨member, bound⟩ := inNetwork_iff_mem.mp (ih before)
    have inner : (overlay (height size)).layer above ≠ 0 := beq_eq_false_iff_ne.mp virtual
    rw [← child, inNetwork_iff_mem]
    refine ⟨(overlay (height size)).child_mem s member inner, ?_⟩
    cases s with
    | left => exact bound
    | right => exact turn rfl

/-- Every address of the network is reached by exactly one way down. -/
theorem existsUnique_reach (inside : InNetwork size addr) :
    ∃! path, reach size path = some addr := by
  obtain ⟨member, bound⟩ := inNetwork_iff_mem.mp inside
  revert bound
  -- induction from the root downwards: the rank of a parent is a rank of the network as well
  refine (overlay (height size)).induct_down
    (P := fun addr => addr.rank < size → ∃! path, reach size path = some addr)
    ?root ?down addr member
  case root =>
    intro bound
    refine ⟨[], congrArg some (root_overlay size).symm, fun path reached => ?_⟩
    cases path with
    | nil => rfl
    | cons s path =>
      obtain ⟨above, before, virtual, -, child⟩ := reach_cons_iff.mp reached
      have nodes : 0 < size := Nat.lt_of_le_of_lt (Nat.zero_le _) bound
      obtain ⟨member, -⟩ := inNetwork_iff_mem.mp (inNetwork_of_reach nodes before)
      have inner : (overlay (height size)).layer above ≠ 0 := beq_eq_false_iff_ne.mp virtual
      exact absurd child ((overlay (height size)).child_ne_root s member inner)
  case down =>
    intro addr member notRoot ih bound
    have nodes : 0 < size := Nat.lt_of_le_of_lt (Nat.zero_le _) bound
    have place : addr.getParent.getChild addr.getSide = addr :=
      (overlay (height size)).child_side member notRoot
    obtain ⟨path, reached, unique⟩ :=
      ih (Nat.lt_of_le_of_lt (rank_getParent_le member) bound)
    refine ⟨addr.getSide :: path, ?_, fun other reached' => ?_⟩
    · apply reach_cons_iff.mpr
      refine ⟨addr.getParent, reached, beq_eq_false_iff_ne.mpr ?_, fun right => ?_, place⟩
      · exact (overlay (height size)).layer_parent_ne_zero member notRoot
      · rw [right] at place
        show (addr.getParent.getChild .right).rank < size
        rwa [place]
    · cases other with
      | nil =>
        refine absurd ?_ notRoot
        rw [root_overlay]
        exact (Option.some.inj reached').symm
      | cons s other =>
        obtain ⟨above, before, virtual, -, child⟩ := reach_cons_iff.mp reached'
        obtain ⟨high, -⟩ := inNetwork_iff_mem.mp (inNetwork_of_reach nodes before)
        have inner : (overlay (height size)).layer above ≠ 0 := beq_eq_false_iff_ne.mp virtual
        have up : (overlay (height size)).parent addr = above := by
          rw [← child]
          exact (overlay (height size)).parent_child s high inner
        have side : (overlay (height size)).side addr = s := by
          rw [← child]
          exact (overlay (height size)).side_child s high inner
        show s :: other = (overlay (height size)).side addr :: path
        rw [side, unique other (before.trans (congrArg some up.symm))]

/-- The addresses of a network are closed under all navigation and form one tree. -/
theorem hierarchy_closed {size : Nat} (nodes : 0 < size) (addr : HierarchyAddress) :
    ((∃ path, reach size path = some addr) ↔ InNetwork size addr) ∧
      (InNetwork size addr →
        (∃! path, reach size path = some addr) ∧ addr.check = true ∧
        (addr.isLeaf = false →
          addr.getLeftChild.getParent = addr ∧ addr.getRightChild.getParent = addr) ∧
        (addr ≠ getRootOfNetworkSize size → InNetwork size addr.getParent)) := by
  refine ⟨⟨fun ⟨_, reached⟩ => inNetwork_of_reach nodes reached,
    fun inside => (existsUnique_reach inside).exists⟩, fun inside => ?_⟩
  obtain ⟨member, bound⟩ := inNetwork_iff_mem.mp inside
  refine ⟨existsUnique_reach inside, check_iff.mpr (inNetwork_iff.mp inside).2.1,
    fun virtual => ?_, fun notRoot => ?_⟩
  · have inner : (overlay (height size)).layer addr ≠ 0 := beq_eq_false_iff_ne.mp virtual
    exact ⟨(overlay (height size)).parent_child .left member inner,
      (overlay (height size)).parent_child .right member inner⟩
  · rw [← root_overlay] at notRoot
    rw [inNetwork_iff_mem]
    exact ⟨(overlay (height size)).parent_mem member notRoot,
      Nat.lt_of_le_of_lt (rank_getParent_le member) bound⟩

/-- In a network of three localities the last rank has an address without a right child. -/
theorem hierarchy_closed_three :
    ((∃ path, reach 3 path = some ⟨2, 1⟩) ↔ InNetwork 3 ⟨2, 1⟩) ∧
      (InNetwork 3 ⟨2, 1⟩ →
        (∃! path, reach 3 path = some ⟨2, 1⟩) ∧ check ⟨2, 1⟩ = true ∧
        (isLeaf ⟨2, 1⟩ = false →
          getParent (getLeftChild ⟨2, 1⟩) = ⟨2, 1⟩ ∧ getParent (getRightChild ⟨2, 1⟩) = ⟨2, 1⟩) ∧
        (⟨2, 1⟩ ≠ getRootOfNetworkSize 3 → InNetwork 3 (getParent ⟨2, 1⟩))) :=
  hierarchy_closed (by decide) ⟨2, 1⟩

end HierarchyAddress

end AllScale
