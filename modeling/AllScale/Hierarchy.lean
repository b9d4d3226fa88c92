import Mathlib.Data.Nat.Bits
import Mathlib.Tactic.Common
import Mathlib.Tactic.Ring
import AllScale.Lib.LayeredTree

/-!
# The hierarchical overlay network

Addresses of virtual nodes, the navigation between them and the shape of a network, as
`hierarchy.hpp` and `hierarchy.cpp` compute them from the bits of rank and layer. Ranks and
layers are natural numbers here. For a network whose size is a power of two the addresses form
a layered tree (`overlay`), which is how the token library is instantiated.
-/

namespace AllScale

open TokenTree

/-- `HierarchyAddress` — a rank of the network and a layer on that rank. -/
structure HierarchyAddress where
  /-- The addressed rank. -/
  rank : Nat
  /-- The addressed layer. -/
  layer : Nat
  deriving DecidableEq, Repr

namespace HierarchyAddress

/-- `HierarchyAddress::isLeaf`. -/
def isLeaf (addr : HierarchyAddress) : Bool := addr.layer == 0

/-- `HierarchyAddress::isRightChild` — the bit of the rank at the position of the layer. -/
def isRightChild (addr : HierarchyAddress) : Bool := addr.rank &&& (1 <<< addr.layer) != 0

/-- `HierarchyAddress::getParent` — `rank & ~(1<<layer)`, one layer up. -/
def getParent (addr : HierarchyAddress) : HierarchyAddress :=
  ⟨addr.rank ^^^ (addr.rank &&& (1 <<< addr.layer)), addr.layer + 1⟩

/-- `HierarchyAddress::getLeftChild`, of virtual nodes. -/
def getLeftChild (addr : HierarchyAddress) : HierarchyAddress := ⟨addr.rank, addr.layer - 1⟩

/-- `HierarchyAddress::getRightChild`, of virtual nodes. -/
def getRightChild (addr : HierarchyAddress) : HierarchyAddress :=
  ⟨addr.rank + (1 <<< (addr.layer - 1)), addr.layer - 1⟩

/-- The loop `while(pos<size) { height++; pos<<=1; }`; `fuel` bounds its iterations. -/
def heightLoop (size : Nat) : (fuel pos : Nat) → Nat
  | 0, _ => 0
  | fuel + 1, pos => if pos < size then heightLoop size fuel (pos <<< 1) + 1 else 0

/-- The loop `while(!(rank%2)) { rank>>=1; res++; }` from `res = 1`; `fuel` bounds its
iterations. -/
def layersLoop : (fuel rank : Nat) → Nat
  | 0, _ => 1
  | fuel + 1, rank => if rank % 2 = 0 then layersLoop fuel (rank >>> 1) + 1 else 1

/-- The height of a network: `size` iterations are enough for a position that doubles. -/
def height (size : Nat) : Nat := heightLoop size size 1

/-- `HierarchyAddress::getLayersOn` — the number of layers on a rank of a network. -/
def getLayersOn (rank size : Nat) : Nat :=
  if rank = 0 then height size + 1 else layersLoop rank rank

/-- `HierarchyAddress::getRootOfNetworkSize`. -/
def getRootOfNetworkSize (size : Nat) : HierarchyAddress := ⟨0, getLayersOn 0 size - 1⟩

/-- The addresses at which `HierarchyService::init` starts a service: every layer of every rank
of the network. -/
def InNetwork (size : Nat) (addr : HierarchyAddress) : Prop :=
  addr.rank < size ∧ addr.layer < getLayersOn addr.rank size

instance (size : Nat) (addr : HierarchyAddress) : Decidable (InNetwork size addr) :=
  inferInstanceAs (Decidable (_ ∧ _))

/-! ## The two loops -/

/-- The height loop finds the least number of doublings that reaches the size. -/
theorem heightLoop_le_iff (size fuel pos h : Nat) (enough : size ≤ pos * 2 ^ fuel) :
    heightLoop size fuel pos ≤ h ↔ size ≤ pos * 2 ^ h := by
  induction fuel generalizing pos h with
  | zero =>
    simp only [Nat.pow_zero, Nat.mul_one] at enough
    simp only [heightLoop, Nat.zero_le, true_iff]
    exact Nat.le_trans enough (Nat.le_mul_of_pos_right pos (Nat.two_pow_pos h))
  | succ fuel ih =>
    rw [heightLoop]
    split
    · rename_i below
      cases h with
      | zero => simpa using below
      | succ h =>
        have doubled : pos <<< 1 * 2 ^ fuel = pos * 2 ^ (fuel + 1) := by
          rw [Nat.shiftLeft_eq, Nat.pow_succ']
          ring
        have same : pos <<< 1 * 2 ^ h = pos * 2 ^ (h + 1) := by
          rw [Nat.shiftLeft_eq, Nat.pow_succ']
          ring
        rw [Nat.add_le_add_iff_right, ih (pos <<< 1) h (by rwa [doubled]), same]
    · rename_i reached
      simp only [Nat.zero_le, true_iff]
      exact Nat.le_trans (Nat.not_lt.mp reached) (Nat.le_mul_of_pos_right pos (Nat.two_pow_pos h))

/-- The height of a network is the least exponent of two that reaches its size. -/
theorem height_le_iff (size h : Nat) : height size ≤ h ↔ size ≤ 2 ^ h := by
  rw [height, heightLoop_le_iff, Nat.one_mul]
  rw [Nat.one_mul]
  exact Nat.le_of_lt Nat.lt_two_pow_self

/-- A network of `2 ^ k` nodes has height `k`. -/
theorem height_two_pow (k : Nat) : height (2 ^ k) = k := by
  apply Nat.le_antisymm
  · exact (height_le_iff _ _).mpr (Nat.le_refl _)
  · have reached := (height_le_iff (2 ^ k) _).mp (Nat.le_refl _)
    exact (Nat.pow_le_pow_iff_right (by decide)).mp reached

/-- A rank other than zero hosts one layer for each power of two that divides it. -/
theorem lt_layersLoop_iff (fuel rank l : Nat) (positive : rank ≠ 0) (enough : rank ≤ fuel) :
    l < layersLoop fuel rank ↔ 2 ^ l ∣ rank := by
  induction fuel generalizing rank l with
  | zero => omega
  | succ fuel ih =>
    rw [layersLoop]
    split
    · rename_i even
      cases l with
      | zero => simp
      | succ l =>
        have half : rank >>> 1 = rank / 2 := by simp [Nat.shiftRight_eq_div_pow]
        rw [Nat.add_lt_add_iff_right, half, ih (rank / 2) l (by omega) (by omega), Nat.pow_succ']
        conv_rhs => rw [← Nat.mul_div_cancel' (Nat.dvd_of_mod_eq_zero even)]
        exact (Nat.mul_dvd_mul_iff_left (by decide)).symm
    · rename_i odd
      cases l with
      | zero => simp
      | succ l =>
        have indivisible : ¬ 2 ^ (l + 1) ∣ rank := by
          intro divides
          have := (Nat.dvd_of_pow_dvd (Nat.le_add_left 1 l) divides)
          omega
        simp [indivisible]

/-- The addresses of a network are the ranks below its size on the layers whose power of two
divides the rank, up to the layer of the root. -/
theorem inNetwork_iff {size : Nat} {addr : HierarchyAddress} :
    InNetwork size addr ↔
      addr.rank < size ∧ 2 ^ addr.layer ∣ addr.rank ∧ addr.layer ≤ height size := by
  obtain ⟨rank, layer⟩ := addr
  simp only [InNetwork, getLayersOn]
  constructor
  · rintro ⟨bound, layers⟩
    refine ⟨bound, ?_⟩
    split at layers
    · rename_i zero
      exact ⟨by simp [zero], by omega⟩
    · rename_i positive
      have divides := (lt_layersLoop_iff rank rank layer positive (Nat.le_refl _)).mp layers
      have reached := (height_le_iff size _).mp (Nat.le_refl _)
      have low := Nat.le_of_dvd (Nat.pos_of_ne_zero positive) divides
      have powers : 2 ^ layer < 2 ^ height size := by omega
      exact ⟨divides, Nat.le_of_lt ((Nat.pow_lt_pow_iff_right (by decide)).mp powers)⟩
  · rintro ⟨bound, divides, low⟩
    refine ⟨bound, ?_⟩
    split
    · omega
    · rename_i positive
      exact (lt_layersLoop_iff rank rank layer positive (Nat.le_refl _)).mpr divides

/-- The root of a network lies on rank zero at the height of the network. -/
theorem getRootOfNetworkSize_eq (size : Nat) : getRootOfNetworkSize size = ⟨0, height size⟩ := by
  simp [getRootOfNetworkSize, getLayersOn]

/-- The root of a network lies at the height of the network. -/
@[simp] theorem layer_getRootOfNetworkSize (size : Nat) :
    (getRootOfNetworkSize size).layer = height size := by
  rw [getRootOfNetworkSize_eq]

/-! ## Navigation -/

/-- Clearing the lowest bit of a number halves and doubles it. -/
theorem xor_and_one (q : Nat) : q ^^^ (q &&& 1) = 2 * (q / 2) := by
  apply Nat.eq_of_testBit_eq
  intro i
  cases i with
  | zero =>
    rw [Nat.testBit_xor, Nat.testBit_and]
    simp only [Nat.testBit_zero, Nat.mul_mod_right]
    cases decide (q % 2 = 1) <;> rfl
  | succ i =>
    have low : q % 2 / 2 = 0 := Nat.div_eq_of_lt (Nat.mod_lt q (by decide))
    simp [Nat.testBit_succ, Nat.xor_div_two, low]

/-- The parent of the `q`-th address of a layer is the address half as far on the next layer. -/
theorem getParent_mul (q layer : Nat) :
    getParent ⟨q * 2 ^ layer, layer⟩ = ⟨q / 2 * 2 ^ (layer + 1), layer + 1⟩ := by
  have cleared : q * 2 ^ layer ^^^ (q * 2 ^ layer &&& 1 <<< layer) = q / 2 * 2 ^ (layer + 1) := by
    rw [← Nat.shiftLeft_eq, ← Nat.shiftLeft_and_distrib, ← Nat.shiftLeft_xor_distrib, xor_and_one,
      Nat.shiftLeft_eq, Nat.pow_succ]
    ring
  simp [getParent, cleared]

/-- The `q`-th address of a layer is a right child when `q` is odd. -/
theorem isRightChild_mul (q layer : Nat) :
    isRightChild ⟨q * 2 ^ layer, layer⟩ = decide (q % 2 = 1) := by
  rw [isRightChild, ← Nat.shiftLeft_eq, ← Nat.shiftLeft_and_distrib, Nat.and_one_is_mod,
    Nat.shiftLeft_eq]
  rcases Nat.mod_two_eq_zero_or_one q with even | odd
  · simp [even]
  · simp [odd]

/-- The left child of the `q`-th address of a layer. -/
theorem getLeftChild_mul (q layer : Nat) :
    getLeftChild ⟨q * 2 ^ (layer + 1), layer + 1⟩ = ⟨2 * q * 2 ^ layer, layer⟩ := by
  simp only [getLeftChild, Nat.add_sub_cancel, mk.injEq, and_true]
  rw [Nat.pow_succ]
  ring

/-- The right child of the `q`-th address of a layer. -/
theorem getRightChild_mul (q layer : Nat) :
    getRightChild ⟨q * 2 ^ (layer + 1), layer + 1⟩ = ⟨(2 * q + 1) * 2 ^ layer, layer⟩ := by
  simp only [getRightChild, Nat.add_sub_cancel, Nat.shiftLeft_eq, mk.injEq, and_true]
  rw [Nat.pow_succ]
  ring

/-! ## Networks of a power of two -/

/-- The addresses of a network of `2 ^ k` nodes, counted on each layer. -/
theorem inNetwork_two_pow_iff {k : Nat} {addr : HierarchyAddress} :
    InNetwork (2 ^ k) addr ↔
      addr.layer ≤ k ∧ ∃ q, q < 2 ^ (k - addr.layer) ∧ addr.rank = q * 2 ^ addr.layer := by
  rw [inNetwork_iff, height_two_pow]
  have split (low : addr.layer ≤ k) : 2 ^ k = 2 ^ (k - addr.layer) * 2 ^ addr.layer := by
    rw [← Nat.pow_add, Nat.sub_add_cancel low]
  have positive := Nat.two_pow_pos addr.layer
  constructor
  · rintro ⟨bound, ⟨q, place⟩, low⟩
    refine ⟨low, q, ?_, by rw [place, Nat.mul_comm]⟩
    rw [place, split low, Nat.mul_comm] at bound
    exact Nat.lt_of_mul_lt_mul_right bound
  · rintro ⟨low, q, bound, place⟩
    refine ⟨?_, ⟨q, by rw [place, Nat.mul_comm]⟩, low⟩
    rw [place, split low]
    exact Nat.mul_lt_mul_of_pos_right bound positive

/-- The child of an address on one side. -/
def getChild (s : Side) (addr : HierarchyAddress) : HierarchyAddress :=
  match s with
  | .left => addr.getLeftChild
  | .right => addr.getRightChild

/-- The side of its parent on which an address hangs. -/
def getSide (addr : HierarchyAddress) : Side := if addr.isRightChild then .right else .left

/-- The position of a child among the addresses of its layer. -/
def childIndex (s : Side) (q : Nat) : Nat :=
  match s with
  | .left => 2 * q
  | .right => 2 * q + 1

/-- The child of the `q`-th address of a layer. -/
theorem getChild_mul (s : Side) (q layer : Nat) :
    getChild s ⟨q * 2 ^ (layer + 1), layer + 1⟩ = ⟨childIndex s q * 2 ^ layer, layer⟩ := by
  cases s
  · exact getLeftChild_mul q layer
  · exact getRightChild_mul q layer

/-- The overlay of a network of `2 ^ k` nodes is a layered binary tree. -/
def overlay (k : Nat) : LayeredTree HierarchyAddress where
  Mem := InNetwork (2 ^ k)
  layer := layer
  root := getRootOfNetworkSize (2 ^ k)
  parent := getParent
  child := getChild
  side := getSide
  root_mem := by
    rw [getRootOfNetworkSize_eq, inNetwork_two_pow_iff, height_two_pow]
    exact ⟨Nat.le_refl k, 0, by simp⟩
  layer_lt_root {n} member notRoot := by
    obtain ⟨low, q, bound, place⟩ := inNetwork_two_pow_iff.mp member
    obtain ⟨rank, layer⟩ := n
    rw [getRootOfNetworkSize_eq, height_two_pow] at notRoot ⊢
    by_contra high
    obtain rfl : layer = k := by simp only at low high; omega
    simp only [Nat.sub_self, Nat.pow_zero, Nat.lt_one_iff] at bound place
    exact notRoot (by simp [place, bound])
  parent_mem {n} member notRoot := by
    obtain ⟨low, q, bound, place⟩ := inNetwork_two_pow_iff.mp member
    obtain ⟨rank, layer⟩ := n
    simp only at low place bound
    subst place
    rw [getParent_mul, inNetwork_two_pow_iff]
    have below : layer ≠ k := by
      rintro rfl
      rw [Nat.sub_self, Nat.pow_zero, Nat.lt_one_iff] at bound
      exact notRoot (by rw [getRootOfNetworkSize_eq, height_two_pow]; simp [bound])
    have halves : 2 ^ (k - layer) = 2 * 2 ^ (k - (layer + 1)) := by
      rw [← Nat.pow_succ']
      congr 1
      omega
    exact ⟨by simp only; omega, q / 2, by simp only; omega, rfl⟩
  layer_parent _ _ := rfl
  child_side {n} member notRoot := by
    obtain ⟨low, q, bound, place⟩ := inNetwork_two_pow_iff.mp member
    obtain ⟨rank, layer⟩ := n
    simp only at low place bound
    subst place
    rw [getParent_mul, getChild_mul, getSide, isRightChild_mul]
    rcases Nat.mod_two_eq_zero_or_one q with even | odd
    · have whole : 2 * (q / 2) = q := by omega
      simp [even, childIndex, whole]
    · have whole : 2 * (q / 2) + 1 = q := by omega
      simp [odd, childIndex, whole]
  child_mem {n} s member inner := by
    obtain ⟨low, q, bound, place⟩ := inNetwork_two_pow_iff.mp member
    obtain ⟨rank, layer⟩ := n
    simp only at low place bound inner
    obtain ⟨layer, rfl⟩ := Nat.exists_eq_succ_of_ne_zero inner
    subst place
    rw [Nat.succ_eq_add_one, getChild_mul, inNetwork_two_pow_iff]
    have halves : 2 ^ (k - layer) = 2 * 2 ^ (k - (layer + 1)) := by
      rw [← Nat.pow_succ']
      congr 1
      omega
    refine ⟨by simp only; omega, childIndex s q, ?_, rfl⟩
    rw [Nat.succ_eq_add_one] at bound
    cases s <;> simp only [childIndex] <;> omega
  layer_child {n} s member inner := by
    have positive : n.layer ≠ 0 := inner
    cases s <;> simp only [getChild, getLeftChild, getRightChild] <;> omega
  parent_child {n} s member inner := by
    obtain ⟨low, q, bound, place⟩ := inNetwork_two_pow_iff.mp member
    obtain ⟨rank, layer⟩ := n
    obtain ⟨layer, rfl⟩ := Nat.exists_eq_succ_of_ne_zero inner
    simp only at place
    subst place
    rw [Nat.succ_eq_add_one, getChild_mul, getParent_mul]
    have whole : childIndex s q / 2 = q := by
      cases s <;> simp only [childIndex] <;> omega
    rw [whole]
  side_child {n} s member inner := by
    obtain ⟨low, q, bound, place⟩ := inNetwork_two_pow_iff.mp member
    obtain ⟨rank, layer⟩ := n
    obtain ⟨layer, rfl⟩ := Nat.exists_eq_succ_of_ne_zero inner
    simp only at place
    subst place
    rw [Nat.succ_eq_add_one, getChild_mul, getSide, isRightChild_mul]
    cases s with
    | left => simp [childIndex]
    | right => simp [childIndex, Nat.add_mod]

end HierarchyAddress

end AllScale
