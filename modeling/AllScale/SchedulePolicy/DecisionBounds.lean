import AllScale.Tasks.PackedPath

/-!
# Decision lookups in machine integers

`decision_tree::get` computes the slot of a path in 32-bit `int`s and compares whole bytes with the
size of the tree, while tasks are split deeper than the tree reaches. This module follows the
arithmetic of the lookup and tells the paths for which it is safe from those for which it is not:
the comparison lets the byte behind the last one through, and the slots of long paths overflow.
-/

namespace AllScale

/-! ## Machine integers -/

/-- A result of signed arithmetic in an `int`; `none` on an overflow, which is undefined. -/
def checkInt (value : Int) : Option Int :=
  if -2 ^ 31 ≤ value ∧ value < 2 ^ 31 then some value else none

/-- The conversion of an `int` to `std::size_t`. -/
def toSizeT (value : Int) : Nat := (value % 2 ^ 64).toNat

/-- A number of the machine is not changed by the conversion. -/
theorem toSizeT_natCast {value : Nat} (fits : value < 2 ^ 64) : toSizeT (value : Int) = value := by
  unfold toSizeT
  omega

/-- A negative number becomes a size that no vector has. -/
theorem toSizeT_neg {value : Int} (low : -2 ^ 31 ≤ value) (negative : value < 0) :
    2 ^ 63 ≤ toSizeT value := by
  unfold toSizeT
  omega

namespace PackedPath

variable {capacity : Nat}

/-- `get_position` — the leading one is shifted in an `int`, which is undefined from 32 turns on,
and joined with the bits of the path; the result is cut back to an `int`. -/
def getPosition (path : PackedPath capacity) : Option Int :=
  if path.length < 32 then
    some (1#32 <<< path.length ||| path.bits.setWidth 32).toInt
  else none

/-- The word of a position is the leading one in front of the bits. -/
theorem toNat_position {path : PackedPath capacity} (defined : path.length < 32) :
    (1#32 <<< path.length ||| path.bits.setWidth 32).toNat =
      2 ^ path.length + path.bits.toNat := by
  have one : 2 ^ path.length < 2 ^ 32 := Nat.pow_lt_pow_right (by decide) defined
  have bits : path.bits.toNat < 2 ^ 32 := Nat.lt_trans path.fits one
  have joined := Nat.two_pow_add_eq_or_of_lt path.fits 1
  rw [Nat.mul_one] at joined
  rw [BitVec.toNat_or, BitVec.toNat_shiftLeft, BitVec.toNat_setWidth, BitVec.toNat_ofNat,
    Nat.mod_eq_of_lt (by decide : 1 < 2 ^ 32), Nat.shiftLeft_eq, Nat.one_mul, Nat.mod_eq_of_lt one,
    Nat.mod_eq_of_lt bits, joined]

/-- Up to 30 turns the position is exact. -/
theorem getPosition_of_le {path : PackedPath capacity} (short : path.length ≤ 30) :
    path.getPosition = some ((2 ^ path.length + path.bits.toNat : Nat) : Int) := by
  have defined : path.length < 32 := by omega
  have fits := path.fits
  have power : 2 ^ path.length ≤ 2 ^ 30 := Nat.pow_le_pow_right (by decide) short
  unfold getPosition
  rw [if_pos defined, BitVec.toInt_eq_toNat_cond, toNat_position defined, if_pos (by omega)]

/-- With 31 turns the leading one is the sign. -/
theorem getPosition_thirtyOne {path : PackedPath capacity} (length : path.length = 31) :
    path.getPosition = some ((path.bits.toNat : Int) - 2 ^ 31) := by
  have defined : path.length < 32 := by omega
  unfold getPosition
  rw [if_pos defined, BitVec.toInt_eq_toNat_cond, toNat_position defined, length,
    if_neg (by omega)]
  congr 1
  push_cast
  omega

/-- Longer shifts are undefined. -/
theorem getPosition_of_ge {path : PackedPath capacity} (long : 32 ≤ path.length) :
    path.getPosition = none := if_neg (Nat.not_lt.mpr long)

end PackedPath

namespace DecisionTree

variable {capacity : Nat}

/-! ## The lookup -/

/-- `decision_tree::get` in the arithmetic of the code; `none` where the behaviour is undefined: on
an overflow, for a read outside of the bytes and for a shift by a negative number. -/
def getInt (tree : DecisionTree) (path : PackedPath capacity) : Option ScheduleDecision := do
  let pos ← path.getPosition
  let twice ← checkInt (2 * pos)
  let bytePos := twice.tdiv 8
  let bitPos := twice.tmod 8
  if toSizeT bytePos > tree.encoded.length then some .done
  else
    let byte ← tree.encoded[toSizeT bytePos]?
    if 0 ≤ bitPos then some (readSlot byte bitPos.toNat) else none

/-- Up to 29 turns the arithmetic is exact. -/
theorem getInt_of_le (tree : DecisionTree) {path : PackedPath capacity}
    (short : path.length ≤ 29) :
    tree.getInt path =
      if (2 ^ path.length + path.bits.toNat) / 4 > tree.encoded.length then some .done
      else tree.encoded[(2 ^ path.length + path.bits.toNat) / 4]?.map fun byte =>
        readSlot byte (2 * (2 ^ path.length + path.bits.toNat) % 8) := by
  have fits := path.fits
  have power : 2 ^ path.length ≤ 2 ^ 29 := Nat.pow_le_pow_right (by decide) short
  generalize slot : 2 ^ path.length + path.bits.toNat = pos
  have twice : checkInt (2 * (pos : Int)) = some ((2 * pos : Nat) : Int) := by
    unfold checkInt
    rw [if_pos (by omega)]
    rfl
  have bytePos : (((2 * pos : Nat) : Int).tdiv 8) = ((pos / 4 : Nat) : Int) := by
    rw [Int.tdiv_eq_ediv_of_nonneg (by omega)]
    omega
  have bitPos : (((2 * pos : Nat) : Int).tmod 8) = ((2 * pos % 8 : Nat) : Int) := by
    rw [Int.tmod_eq_emod_of_nonneg (by omega)]
    omega
  unfold getInt
  rw [PackedPath.getPosition_of_le (by omega), slot, Option.bind_eq_bind, Option.bind_some, twice,
    Option.bind_eq_bind, Option.bind_some]
  simp only [bytePos, bitPos, toSizeT_natCast (by omega : pos / 4 < 2 ^ 64)]
  split
  · rfl
  · cases tree.encoded[pos / 4]? with
    | none => rfl
    | some byte =>
      have shift : (0 : Int) ≤ ((2 * pos % 8 : Nat) : Int) := Int.natCast_nonneg _
      rw [Option.bind_some, if_pos shift]
      rfl

/-- With 30 turns the doubled position overflows. -/
theorem getInt_thirty (tree : DecisionTree) {path : PackedPath capacity}
    (length : path.length = 30) : tree.getInt path = none := by
  have overflow : checkInt (2 * ((2 ^ path.length + path.bits.toNat : Nat) : Int)) = none := by
    unfold checkInt
    rw [length, if_neg (by omega)]
  unfold getInt
  rw [PackedPath.getPosition_of_le (by omega), Option.bind_eq_bind, Option.bind_some, overflow]
  rfl

/-- With 31 turns the position is negative: the lookup overflows, or returns `done`, or shifts by a
negative number. -/
theorem getInt_thirtyOne {tree : DecisionTree} (inMemory : tree.encoded.length < 2 ^ 63)
    {path : PackedPath capacity} (length : path.length = 31) :
    tree.getInt path =
      if 2 ^ 30 ≤ path.bits.toNat ∧ path.bits.toNat ≤ 2 ^ 31 - 4 then some .done else none := by
  have fits := path.fits
  rw [length] at fits
  unfold getInt
  rw [PackedPath.getPosition_thirtyOne length, Option.bind_eq_bind, Option.bind_some]
  by_cases right : 2 ^ 30 ≤ path.bits.toNat
  · -- the distance to zero, which is what C++ divides
    obtain ⟨rest, position⟩ : ∃ rest : Nat,
        2 * ((path.bits.toNat : Int) - 2 ^ 31) = -(rest : Int) :=
      ⟨2 ^ 32 - 2 * path.bits.toNat, by omega⟩
    have twice : checkInt (2 * ((path.bits.toNat : Int) - 2 ^ 31)) = some (-(rest : Int)) := by
      unfold checkInt
      rw [if_pos (by omega), position]
    have bytePos : (-(rest : Int)).tdiv 8 = -((rest / 8 : Nat) : Int) := by
      rw [Int.neg_tdiv, Int.tdiv_eq_ediv_of_nonneg (by omega)]
      rfl
    have bitPos : (-(rest : Int)).tmod 8 = -((rest % 8 : Nat) : Int) := by
      rw [Int.neg_tmod, Int.tmod_eq_emod_of_nonneg (by omega)]
      rfl
    rw [twice, Option.bind_eq_bind, Option.bind_some]
    simp only [bytePos, bitPos]
    by_cases early : path.bits.toNat ≤ 2 ^ 31 - 4
    · have huge : 2 ^ 63 ≤ toSizeT (-((rest / 8 : Nat) : Int)) :=
        toSizeT_neg (by omega) (by omega)
      rw [if_pos (Nat.lt_of_lt_of_le inMemory huge), if_pos ⟨right, early⟩]
    · have first : rest / 8 = 0 := by omega
      have negative : ¬ 0 ≤ -((rest % 8 : Nat) : Int) := by omega
      have zero : toSizeT (-((0 : Nat) : Int)) = 0 := rfl
      rw [first, zero, if_neg (Nat.not_lt_zero _), if_neg fun both => early both.2]
      cases tree.encoded[0]? with
      | none => rfl
      | some byte => exact if_neg negative
  · have overflow : checkInt (2 * ((path.bits.toNat : Int) - 2 ^ 31)) = none := by
      unfold checkInt
      rw [if_neg (by omega)]
    rw [overflow, if_neg fun both => right both.1]
    rfl

/-- Longer paths have no position. -/
theorem getInt_of_ge (tree : DecisionTree) {path : PackedPath capacity}
    (long : 32 ≤ path.length) : tree.getInt path = none := by
  unfold getInt
  rw [PackedPath.getPosition_of_ge long]
  rfl

/-- On the paths of up to 29 turns the lookup in machine integers is the one in numbers. -/
theorem getInt_pack (tree : DecisionTree) {path : TaskPath} (fits : path.getLength ≤ capacity)
    (short : path.getLength ≤ 29) :
    tree.getInt (PackedPath.pack capacity path) = tree.get path := by
  have position : 2 ^ path.getLength + path.getPath = path.getPosition :=
    path.getPosition_eq.symm
  have byte : 2 * path.getPosition / 8 = path.getPosition / 4 := by omega
  rw [getInt_of_le tree (by rwa [PackedPath.length_pack]), PackedPath.length_pack,
    PackedPath.toNat_bits_pack fits, position]
  unfold get
  simp only [byte]

/-! ## Safe lookups -/

/-- A lookup is safe: it has a result, and for a slot beyond the tree the result is `done`. -/
def SafeAt (tree : DecisionTree) (path : PackedPath capacity) : Prop :=
  ∃ decision, tree.getInt path = some decision ∧
    (4 * tree.encoded.length ≤ 2 ^ path.length + path.bits.toNat → decision = .done)

/-- Without a result a lookup is not safe. -/
theorem not_safeAt_of_none {tree : DecisionTree} {path : PackedPath capacity}
    (undefined : tree.getInt path = none) : ¬ tree.SafeAt path := by
  rintro ⟨decision, result, -⟩
  rw [undefined] at result
  cases result

/-- Up to 29 turns a lookup is safe unless its slot lies in the first byte behind the tree. -/
theorem safeAt_iff_of_le (tree : DecisionTree) {path : PackedPath capacity}
    (short : path.length ≤ 29) :
    tree.SafeAt path ↔ (2 ^ path.length + path.bits.toNat) / 4 ≠ tree.encoded.length := by
  have result := tree.getInt_of_le short
  rcases Nat.lt_trichotomy ((2 ^ path.length + path.bits.toNat) / 4) tree.encoded.length with
    inside | boundary | beyond
  · rw [if_neg (by omega), List.getElem?_eq_getElem inside, Option.map_some] at result
    refine iff_of_true ⟨_, result, fun outside => ?_⟩ (Nat.ne_of_lt inside)
    omega
  · rw [if_neg (by omega), List.getElem?_eq_none (Nat.le_of_eq boundary.symm)] at result
    exact iff_of_false (not_safeAt_of_none result) (not_not_intro boundary)
  · rw [if_pos beyond] at result
    exact iff_of_true ⟨_, result, fun _ => rfl⟩ (Nat.ne_of_gt beyond)

/-- A lookup reads inside of the tree and returns `done` beyond it exactly when the path has at
most 29 turns and its slot does not lie in the first byte behind the tree, or when it has 31 turns
of which the first one goes right and the others are not among the last three: there the position
is negative and becomes a size beyond every tree. -/
theorem safeAt_iff {tree : DecisionTree} (inMemory : tree.encoded.length < 2 ^ 63)
    (path : PackedPath capacity) :
    tree.SafeAt path ↔
      (path.length ≤ 29 ∧ (2 ^ path.length + path.bits.toNat) / 4 ≠ tree.encoded.length) ∨
      (path.length = 31 ∧ 2 ^ 30 ≤ path.bits.toNat ∧ path.bits.toNat ≤ 2 ^ 31 - 4) := by
  rcases Nat.lt_or_ge path.length 30 with short | long
  · have notLong : ¬ path.length = 31 := by omega
    rw [safeAt_iff_of_le tree (Nat.le_of_lt_succ short)]
    simp [notLong, Nat.le_of_lt_succ short]
  · have notShort : ¬ path.length ≤ 29 := by omega
    by_cases last : path.length = 31
    · have result := getInt_thirtyOne inMemory last
      rw [or_iff_right fun both => notShort both.1, and_iff_right last]
      by_cases early : 2 ^ 30 ≤ path.bits.toNat ∧ path.bits.toNat ≤ 2 ^ 31 - 4
      · rw [if_pos early] at result
        exact iff_of_true ⟨_, result, fun _ => rfl⟩ early
      · rw [if_neg early] at result
        exact iff_of_false (not_safeAt_of_none result) early
    · simp only [notShort, last, false_and, or_self, iff_false]
      apply not_safeAt_of_none
      by_cases middle : path.length = 30
      · exact tree.getInt_thirty middle
      · exact tree.getInt_of_ge (by omega)

/-- In a tree for eight nodes the path of two right turns is looked up safely. -/
theorem safeAt_rightRight :
    SafeAt ⟨List.replicate 4 0⟩ (⟨2, 3, by decide⟩ : PackedPath 64) :=
  (safeAt_iff (by decide) _).mpr (.inl ⟨by decide, by decide⟩)

/-- In a tree for eight nodes the path of four left turns reads the byte behind the tree. -/
theorem not_safeAt_leftmost :
    ¬ ∀ (numNodes : Nat) (tree : DecisionTree) (path : PackedPath 64),
      create numNodes = some tree → tree.encoded.length < 2 ^ 63 → tree.SafeAt path := by
  intro safe
  have here := safe 8 ⟨List.replicate 4 0⟩ ⟨4, 0, by decide⟩ rfl (by decide)
  exact (safeAt_iff_of_le _ (by decide)).mp here (by decide)

end DecisionTree

end AllScale
