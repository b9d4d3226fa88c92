import AllScale.SchedulePolicy.DecisionTree

/-!
# Packed task paths

A task carries its path as a length and a word of bits, to which every child appends one. Up to the
capacity of the word the packed paths are those of the turns: children are told apart, and the
prefixes of a path are the paths of its ancestors.
-/

namespace AllScale

open TokenTree

/-- `TaskPath` — the pair of the length of a path and its bits, in words of `capacity` bits. -/
@[ext] structure PackedPath (capacity : Nat) where
  /-- The number of turns. -/
  length : Nat
  /-- The turns, the latest in the lowest bit. -/
  bits : BitVec capacity
  /-- No bit lies beyond the length. -/
  fits : bits.toNat < 2 ^ length
  deriving DecidableEq

namespace PackedPath

variable {capacity : Nat}

/-- `TaskPath::root`. -/
def root (capacity : Nat) : PackedPath capacity := ⟨0, 0, by simp⟩

/-- The bit that a turn appends. -/
def bit : Side → Nat
  | .left => 0
  | .right => 1

/-- A turn appends a single bit. -/
theorem bit_le (s : Side) : bit s ≤ 1 := by cases s <;> decide

/-- The turn is determined by its bit. -/
theorem bit_injective {s t : Side} (same : bit s = bit t) : s = t := by
  cases s <;> cases t <;> first | rfl | exact absurd same (by decide)

/-- The path of the child on a side. -/
def getChildPath (self : PackedPath capacity) (s : Side) : PackedPath capacity where
  length := self.length + 1
  bits := BitVec.ofNat capacity (2 * self.bits.toNat + bit s)
  fits := by
    have fits := self.fits
    have less := Nat.mod_le (2 * self.bits.toNat + bit s) (2 ^ capacity)
    have single := bit_le s
    rw [BitVec.toNat_ofNat, Nat.pow_succ]
    omega

/-- `TaskPath::getLeftChildPath`. -/
def getLeftChildPath (self : PackedPath capacity) : PackedPath capacity := self.getChildPath .left

/-- `TaskPath::getRightChildPath`. -/
def getRightChildPath (self : PackedPath capacity) : PackedPath capacity := self.getChildPath .right

/-- `TaskPath::isPrefixOf`. -/
def isPrefixOf (self other : PackedPath capacity) : Bool :=
  self.length ≤ other.length && self.bits == other.bits >>> (other.length - self.length)

/-! ## Children -/

/-- Within the capacity no bit is lost. -/
theorem toNat_bits_child {self : PackedPath capacity} (short : self.length < capacity) (s : Side) :
    (self.getChildPath s).bits.toNat = 2 * self.bits.toNat + bit s := by
  have fits := self.fits
  have room : 2 * 2 ^ self.length ≤ 2 ^ capacity := by
    rw [Nat.mul_comm, ← Nat.pow_succ]
    exact Nat.pow_le_pow_right (by decide) short
  show (BitVec.ofNat capacity _).toNat = _
  have single := bit_le s
  rw [BitVec.toNat_ofNat, Nat.mod_eq_of_lt]
  omega

/-- Within the capacity a child determines its parent and its side. -/
theorem getChildPath_injective {first second : PackedPath capacity}
    (short : first.length < capacity) {s t : Side}
    (same : first.getChildPath s = second.getChildPath t) : first = second ∧ s = t := by
  have length : first.length = second.length := Nat.succ.inj (congrArg PackedPath.length same)
  have bits := congrArg (fun path => path.bits.toNat) same
  simp only [toNat_bits_child short, toNat_bits_child (length ▸ short)] at bits
  have left := bit_le s
  have right := bit_le t
  constructor
  · apply PackedPath.ext length
    apply BitVec.eq_of_toNat_eq
    omega
  · apply bit_injective
    omega

/-! ## Prefixes -/

/-- The root path has no other prefix than itself. -/
theorem isPrefixOf_root (self : PackedPath capacity) :
    self.isPrefixOf (root capacity) = true ↔ self = root capacity := by
  unfold isPrefixOf root
  constructor
  · intro isPrefix
    obtain ⟨length, bits⟩ := Bool.and_eq_true_iff.mp isPrefix
    have length : self.length = 0 := Nat.le_zero.mp (of_decide_eq_true length)
    apply PackedPath.ext length
    simpa [length] using bits
  · rintro rfl
    simp

/-- The prefixes of a child are the child itself and the prefixes of its parent. -/
theorem isPrefixOf_child (self : PackedPath capacity) {other : PackedPath capacity}
    (short : other.length < capacity) (s : Side) :
    self.isPrefixOf (other.getChildPath s) = true ↔
      self = other.getChildPath s ∨ self.isPrefixOf other = true := by
  have bits := toNat_bits_child short s
  have length : (other.getChildPath s).length = other.length + 1 := rfl
  -- below the child, its last bit is shifted out
  have shifted (below : self.length ≤ other.length) :
      (other.getChildPath s).bits >>> (other.length + 1 - self.length) =
        other.bits >>> (other.length - self.length) := by
    have step : other.length + 1 - self.length = 1 + (other.length - self.length) := by omega
    have half : (2 * other.bits.toNat + bit s) >>> 1 = other.bits.toNat := by
      have single := bit_le s
      rw [Nat.shiftRight_eq_div_pow, Nat.pow_one]
      omega
    apply BitVec.eq_of_toNat_eq
    rw [BitVec.toNat_ushiftRight, BitVec.toNat_ushiftRight, bits, step, Nat.shiftRight_add, half]
  unfold isPrefixOf
  rw [length]
  by_cases below : self.length ≤ other.length
  · have other_ne : self ≠ other.getChildPath s := by
      rintro rfl
      omega
    rw [shifted below]
    simp [below, Nat.le_succ_of_le below, other_ne]
  · by_cases same : self.length = other.length + 1
    · simp [same, PackedPath.ext_iff, length]
    · have other_ne : self ≠ other.getChildPath s := by
        rintro rfl
        exact same length
      have above : ¬ self.length ≤ other.length + 1 := by omega
      simp [below, above, other_ne]

/-! ## Turns -/

/-- The packed path of a sequence of turns. -/
def pack (capacity : Nat) : TaskPath → PackedPath capacity
  | [] => root capacity
  | s :: parent => (pack capacity parent).getChildPath s

/-- A packed path is as long as the sequence of its turns. -/
@[simp] theorem length_pack (path : TaskPath) : (pack capacity path).length = path.getLength := by
  induction path with
  | nil => rfl
  | cons s parent ih =>
    show (pack capacity parent).length + 1 = _
    rw [ih]
    rfl

/-- Within the capacity a packed path has the bits of its turns. -/
theorem toNat_bits_pack {path : TaskPath} (short : path.getLength ≤ capacity) :
    (pack capacity path).bits.toNat = path.getPath := by
  induction path with
  | nil => exact BitVec.toNat_ofNat _ _
  | cons s parent ih =>
    have shorter : TaskPath.getLength parent < capacity := short
    show ((pack capacity parent).getChildPath s).bits.toNat = _
    rw [toNat_bits_child (by rwa [length_pack]), ih (Nat.le_of_lt shorter)]
    cases s <;> rfl

/-- Within the capacity the prefixes of a packed path are those of its turns. -/
theorem isPrefixOf_pack {first second : TaskPath} (short : first.getLength ≤ capacity)
    (short' : second.getLength ≤ capacity) :
    (pack capacity first).isPrefixOf (pack capacity second) = true ↔ first <:+ second := by
  induction second with
  | nil =>
    rw [List.suffix_nil]
    show (pack capacity first).isPrefixOf (root capacity) = true ↔ _
    rw [isPrefixOf_root]
    constructor
    · intro same
      have length := congrArg PackedPath.length same
      rw [length_pack] at length
      exact List.length_eq_zero_iff.mp length
    · rintro rfl
      rfl
  | cons s parent ih =>
    have shorter : TaskPath.getLength parent < capacity := short'
    rw [List.suffix_cons_iff, ← ih (Nat.le_of_lt shorter)]
    show (pack capacity first).isPrefixOf ((pack capacity parent).getChildPath s) = true ↔ _
    rw [isPrefixOf_child _ (by rwa [length_pack])]
    apply or_congr_left
    constructor
    · intro same
      have packed : pack capacity first = pack capacity (s :: parent) := same
      apply TaskPath.eq_of_getPath
      · rw [← @length_pack capacity, packed, length_pack]
      · rw [← toNat_bits_pack short, packed, toNat_bits_pack short']
    · rintro rfl
      rfl

end PackedPath

end AllScale
