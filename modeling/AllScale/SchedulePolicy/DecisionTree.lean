import Mathlib.Data.BitVec
import Mathlib.Tactic.Common
import AllScale.Hierarchy

/-!
# Task paths and decision trees

A task path is the sequence of left and right turns that leads from a root task to one of its
descendants. `decision_tree` stores a decision of two bits for every path, four to a byte, at the
position of the path in an embedded binary tree. Every access outside of the bytes is a `none`
here; inside, a tree behaves as a map from paths to decisions.
-/

namespace AllScale

open TokenTree

/-! ## Task paths -/

/-- `task_path` — the turns from the root task to a task, the latest first. The pair of length and
bits by which the source knows a path is `getLength` and `getPath`. -/
abbrev TaskPath := List Side

namespace TaskPath

/-- `TaskPath::root`. -/
def root : TaskPath := []

/-- `TaskPath::getLength`. -/
def getLength (path : TaskPath) : Nat := path.length

/-- `TaskPath::getPath` — a child appends one bit to the bits of its parent. -/
def getPath : TaskPath → Nat
  | [] => 0
  | .left :: parent => 2 * getPath parent
  | .right :: parent => 2 * getPath parent + 1

/-- `TaskPath::getLeftChildPath`. -/
def getLeftChildPath (path : TaskPath) : TaskPath := .left :: path

/-- `TaskPath::getRightChildPath`. -/
def getRightChildPath (path : TaskPath) : TaskPath := .right :: path

/-- `get_position` — where the decision of a path is stored. -/
def getPosition (path : TaskPath) : Nat := 1 <<< path.getLength ||| path.getPath

/-- The bits of a path fit its length. -/
theorem getPath_lt (path : TaskPath) : path.getPath < 2 ^ path.getLength := by
  induction path with
  | nil => decide
  | cons s path ih =>
    have length : 2 ^ getLength (s :: path) = 2 * 2 ^ getLength path := by
      unfold getLength
      rw [List.length_cons, Nat.pow_succ, Nat.mul_comm]
    rw [length]
    cases s <;> unfold getPath <;> omega

/-- The position of a path is its bits behind a leading one. -/
theorem getPosition_eq (path : TaskPath) :
    path.getPosition = 2 ^ path.getLength + path.getPath := by
  have joined := Nat.two_pow_add_eq_or_of_lt path.getPath_lt 1
  unfold getPosition
  rw [Nat.shiftLeft_eq, Nat.one_mul]
  rw [Nat.mul_one] at joined
  exact joined.symm

/-- The positions of longer paths lie further back. -/
theorem getPosition_bounds (path : TaskPath) :
    2 ^ path.getLength ≤ path.getPosition ∧ path.getPosition < 2 ^ (path.getLength + 1) := by
  have bits := path.getPath_lt
  rw [getPosition_eq, Nat.pow_succ]
  omega

/-- Paths of one length are told apart by their bits. -/
theorem eq_of_getPath {first second : TaskPath} (length : first.getLength = second.getLength)
    (bits : first.getPath = second.getPath) : first = second := by
  induction first generalizing second with
  | nil => exact (List.length_eq_zero_iff.mp length.symm).symm
  | cons s first ih =>
    cases second with
    | nil => exact absurd length (Nat.succ_ne_zero _)
    | cons t second =>
      have shorter : getLength first = getLength second := Nat.succ.inj length
      cases s <;> cases t <;> unfold getPath at bits
      · rw [ih shorter (by omega)]
      · omega
      · omega
      · rw [ih shorter (by omega)]

/-- No two paths have the same position. -/
theorem getPosition_injective {first second : TaskPath}
    (same : first.getPosition = second.getPosition) : first = second := by
  have length : first.getLength = second.getLength := by
    obtain ⟨low, high⟩ := first.getPosition_bounds
    obtain ⟨low', high'⟩ := second.getPosition_bounds
    have below : 2 ^ first.getLength < 2 ^ (second.getLength + 1) := by omega
    have above : 2 ^ second.getLength < 2 ^ (first.getLength + 1) := by omega
    have up := (Nat.pow_lt_pow_iff_right (by decide)).mp below
    have down := (Nat.pow_lt_pow_iff_right (by decide)).mp above
    omega
  apply eq_of_getPath length
  rw [getPosition_eq, getPosition_eq, length] at same
  omega

end TaskPath

/-! ## Decisions -/

/-- `schedule_decision`. -/
inductive ScheduleDecision where
  /-- The task has reached its destination. -/
  | done
  /-- Stay on the current virtual node. -/
  | stay
  /-- Send to the left child. -/
  | left
  /-- Send to the right child. -/
  | right
  deriving DecidableEq, Repr

namespace ScheduleDecision

/-- The value of a decision in the enumeration of the source. -/
def toBits : ScheduleDecision → BitVec 8
  | done => 0
  | stay => 1
  | left => 2
  | right => 3

/-- The decision with a value. -/
def ofBits (bits : BitVec 8) : ScheduleDecision :=
  if bits = 0 then done else if bits = 1 then stay else if bits = 2 then left else right

/-- Every decision is told by its value. -/
@[simp] theorem ofBits_toBits (decision : ScheduleDecision) :
    ofBits decision.toBits = decision := by
  cases decision <;> rfl

/-- The value of a decision has two bits. -/
theorem getLsbD_toBits (decision : ScheduleDecision) {i : Nat} (high : 2 ≤ i) :
    decision.toBits.getLsbD i = false := by
  obtain ⟨i, rfl⟩ := Nat.exists_eq_add_of_le' high
  cases decision <;> simp [toBits, BitVec.getLsbD_ofNat, Nat.testBit_succ]

/-- The decision to turn to a side, or to stay. -/
def ofTurn : Option Side → ScheduleDecision
  | none => stay
  | some .left => left
  | some .right => right

/-- To turn or to stay is not to be done. -/
theorem ofTurn_ne_done (turn : Option Side) : ofTurn turn ≠ done := by
  cases turn with
  | none => decide
  | some s => cases s <;> decide

end ScheduleDecision

/-! ## Bytes of four decisions -/

/-- `(byte & ~(0x3 << bit_pos)) | (int(decision) << bit_pos)`. -/
def writeSlot (byte : BitVec 8) (bitPos : Nat) (decision : ScheduleDecision) : BitVec 8 :=
  byte &&& ~~~((3 : BitVec 8) <<< bitPos) ||| decision.toBits <<< bitPos

/-- `(byte >> bit_pos) & 0x3`. -/
def readSlot (byte : BitVec 8) (bitPos : Nat) : ScheduleDecision :=
  .ofBits (byte >>> bitPos &&& 3)

/-- The mask of a slot has two bits. -/
theorem getLsbD_mask (i : Nat) : (3 : BitVec 8).getLsbD i = decide (i < 2) := by
  match i with
  | 0 => rfl
  | 1 => rfl
  | i + 2 =>
    have high : Nat.testBit 3 (i + 2) = false := by
      rw [Nat.testBit_succ, Nat.testBit_succ]
      exact Nat.zero_testBit i
    simp [BitVec.getLsbD_ofNat, high]

/-- A byte after a write has the bits of the decision in its slot, and its own elsewhere. -/
theorem getLsbD_writeSlot (byte : BitVec 8) {bitPos : Nat} (inside : bitPos + 2 ≤ 8)
    (decision : ScheduleDecision) (i : Nat) :
    (writeSlot byte bitPos decision).getLsbD i =
      if bitPos ≤ i ∧ i < bitPos + 2 then decision.toBits.getLsbD (i - bitPos)
      else byte.getLsbD i := by
  simp only [writeSlot, BitVec.getLsbD_and, BitVec.getLsbD_or, BitVec.getLsbD_not,
    BitVec.getLsbD_shiftLeft, getLsbD_mask]
  by_cases below : i < bitPos
  · have outside : ¬ (bitPos ≤ i ∧ i < bitPos + 2) := by omega
    by_cases fits : i < 8
    · simp [below, outside, fits]
    · omega
  · by_cases slot : i < bitPos + 2
    · have fits : i < 8 := by omega
      have low : i - bitPos < 2 := by omega
      simp [below, slot, fits, low, Nat.not_lt.mp below]
    · have clear := decision.getLsbD_toBits (by omega : 2 ≤ i - bitPos)
      by_cases fits : i < 8
      · have high : ¬ i - bitPos < 2 := by omega
        simp [below, slot, fits, clear, high]
      · simp [fits, slot, BitVec.getLsbD_of_ge byte i (Nat.not_lt.mp fits)]

/-- A slot reads what was written to it. -/
theorem readSlot_writeSlot (byte : BitVec 8) {bitPos : Nat} (inside : bitPos + 2 ≤ 8)
    (decision : ScheduleDecision) :
    readSlot (writeSlot byte bitPos decision) bitPos = decision := by
  have bits : writeSlot byte bitPos decision >>> bitPos &&& 3 = decision.toBits := by
    apply BitVec.eq_of_getLsbD_eq
    intro i _
    rw [BitVec.getLsbD_and, BitVec.getLsbD_ushiftRight, getLsbD_writeSlot byte inside,
      getLsbD_mask]
    by_cases low : i < 2
    · simp [low]
    · simp [low, decision.getLsbD_toBits (Nat.not_lt.mp low)]
  unfold readSlot
  rw [bits, ScheduleDecision.ofBits_toBits]

/-- Writing a slot leaves the others of the byte alone. -/
theorem readSlot_writeSlot_of_apart (byte : BitVec 8) {bitPos other : Nat}
    (inside : bitPos + 2 ≤ 8) (apart : bitPos + 2 ≤ other ∨ other + 2 ≤ bitPos)
    (decision : ScheduleDecision) :
    readSlot (writeSlot byte bitPos decision) other = readSlot byte other := by
  have bits : writeSlot byte bitPos decision >>> other &&& 3 = byte >>> other &&& 3 := by
    apply BitVec.eq_of_getLsbD_eq
    intro i _
    rw [BitVec.getLsbD_and, BitVec.getLsbD_and, BitVec.getLsbD_ushiftRight,
      BitVec.getLsbD_ushiftRight, getLsbD_writeSlot byte inside, getLsbD_mask]
    by_cases low : i < 2
    · have outside : ¬ (bitPos ≤ other + i ∧ other + i < bitPos + 2) := by omega
      rw [if_neg outside]
    · simp [low]
  unfold readSlot
  rw [bits]

/-! ## Trees -/

/-- `ceilLog2` — the loop that also computes the height of a network. -/
def ceilLog2 (x : Nat) : Nat := HierarchyAddress.heightLoop x x 1

/-- `ceilLog2` is the height of a network of that many nodes. -/
theorem ceilLog2_eq (x : Nat) : ceilLog2 x = HierarchyAddress.height x := rfl

/-- The logarithm of a power of two. -/
@[simp] theorem ceilLog2_two_pow (k : Nat) : ceilLog2 (2 ^ k) = k :=
  HierarchyAddress.height_two_pow k

/-- `decision_tree` — the encoded decisions. -/
structure DecisionTree where
  /-- `encoded_` — four decisions a byte. -/
  encoded : List (BitVec 8)
  deriving DecidableEq

namespace DecisionTree

/-- The constructor, with its check for a power of two. -/
def create (numNodes : Nat) : Option DecisionTree :=
  if 1 <<< ceilLog2 numNodes = numNodes then some ⟨List.replicate (2 * 2 * numNodes / 8) 0⟩
  else none

/-- `decision_tree::set`, with its check that the position lies inside of the tree. -/
def set (tree : DecisionTree) (path : TaskPath) (decision : ScheduleDecision) :
    Option DecisionTree :=
  let pos := path.getPosition
  if pos / 4 < tree.encoded.length then
    let bytePos := 2 * pos / 8
    let bitPos := 2 * pos % 8
    some ⟨tree.encoded.set bytePos (writeSlot (tree.encoded.getD bytePos 0) bitPos decision)⟩
  else none

/-- `decision_tree::get`; `none` when the byte read lies outside of the tree. -/
def get (tree : DecisionTree) (path : TaskPath) : Option ScheduleDecision :=
  let pos := path.getPosition
  let bytePos := 2 * pos / 8
  let bitPos := 2 * pos % 8
  if bytePos > tree.encoded.length then some .done
  else tree.encoded[bytePos]?.map fun byte => readSlot byte bitPos

/-- The slot of a path lies inside of a tree. -/
def InTree (tree : DecisionTree) (path : TaskPath) : Prop :=
  path.getPosition < 4 * tree.encoded.length

/-- Trees of one length have the same slots. -/
theorem InTree.of_length {tree tree' : DecisionTree} {path : TaskPath} (inTree : tree.InTree path)
    (same : tree'.encoded.length = tree.encoded.length) : tree'.InTree path := by
  unfold InTree
  rw [same]
  exact inTree

/-- A decision can be set when its slot lies inside of the tree; only the bytes change. -/
theorem set_eq {tree : DecisionTree} {path : TaskPath} (inTree : tree.InTree path)
    (decision : ScheduleDecision) :
    ∃ tree', tree.set path decision = some tree' ∧
      tree'.encoded.length = tree.encoded.length ∧
      tree'.get path = some decision ∧
      ∀ other, other ≠ path → tree'.get other = tree.get other := by
  have inside : path.getPosition / 4 < tree.encoded.length := by
    unfold InTree at inTree
    omega
  have byte : 2 * path.getPosition / 8 = path.getPosition / 4 := by omega
  refine ⟨_, if_pos inside, List.length_set, ?_, fun other different => ?_⟩
  · unfold get
    rw [if_neg]
    · simp only [byte, List.getElem?_set_self inside, Option.map_some]
      rw [readSlot_writeSlot]
      omega
    · rw [List.length_set]
      omega
  · have apart : other.getPosition ≠ path.getPosition := fun same =>
      different (TaskPath.getPosition_injective same)
    unfold get
    simp only [List.length_set, List.getElem?_set]
    split
    · rfl
    · split
      · rename_i same
        rw [if_pos (byte ▸ inside), ← same, List.getElem?_eq_getElem (byte ▸ inside)]
        simp only [Option.map_some, Option.some.injEq, List.getD_eq_getElem?_getD,
          List.getElem?_eq_getElem (byte ▸ inside), Option.getD_some]
        exact readSlot_writeSlot_of_apart _ (by omega) (by omega) _
      · rfl

end DecisionTree

end AllScale
