import Mathlib.Algebra.BigOperators.Field
import Mathlib.Algebra.BigOperators.Intervals
import Mathlib.Algebra.CharZero.Defs
import Mathlib.Data.Rat.Cast.CharZero
import Mathlib.Tactic.NormNum
import Mathlib.Tactic.Ring
import AllScale.SchedulePolicy.DecisionTree

/-!
# Task times

`task_times` keeps the time spent in tasks in one array, with a slot for every path of the tracking
level. Times of coarser tasks are split over the slots below them, times of finer tasks go to the
slot of their ancestor, and queries sum up and halve in the same way. Sums are exact here and
durations are natural numbers of nanoseconds, which are halved with rounding.
-/

namespace AllScale

open TokenTree

/-- `TRACKING_LEVEL`. No proof depends on its value. -/
@[irreducible] def trackingLevel : Nat := 14

/-! ## Slots -/

namespace TaskPath

/-- `TaskPath::getParentPath`. -/
def getParentPath (path : TaskPath) : TaskPath := path.tail

/-- A child is one turn longer. -/
theorem getLength_getLeftChildPath (path : TaskPath) :
    path.getLeftChildPath.getLength = path.getLength + 1 := List.length_cons

/-- A child is one turn longer. -/
theorem getLength_getRightChildPath (path : TaskPath) :
    path.getRightChildPath.getLength = path.getLength + 1 := List.length_cons

/-- The parent is one turn shorter. -/
theorem getLength_getParentPath (path : TaskPath) :
    path.getParentPath.getLength = path.getLength - 1 := List.length_tail

/-- The first slot of a path: that of the leftmost descendant on the tracking level, or of the
ancestor there. -/
def firstSlot (path : TaskPath) : Nat :=
  getPath (path.drop (path.getLength - trackingLevel)) * 2 ^ (trackingLevel - path.getLength)

/-- The slots of a path. -/
def slots (path : TaskPath) : Finset Nat :=
  .Ico path.firstSlot (path.firstSlot + 2 ^ (trackingLevel - path.getLength))

/-- A path has one slot for every descendant on the tracking level. -/
theorem card_slots (path : TaskPath) :
    path.slots.card = 2 ^ (trackingLevel - path.getLength) := by
  unfold slots
  rw [Nat.card_Ico, Nat.add_sub_cancel_left]

/-- The bits of a descendant follow those of the path. -/
theorem getPath_append (turns path : TaskPath) :
    getPath (turns ++ path) = path.getPath * 2 ^ turns.getLength + turns.getPath := by
  induction turns with
  | nil =>
    show path.getPath = path.getPath * 2 ^ 0 + 0
    omega
  | cons s turns ih =>
    have longer : path.getPath * 2 ^ getLength (s :: turns) =
        2 * (path.getPath * 2 ^ getLength turns) := by
      unfold getLength
      rw [List.length_cons, Nat.pow_succ]
      ring
    rw [longer, List.cons_append]
    cases s with
    | left =>
      show 2 * getPath (turns ++ path) = _ + 2 * getPath turns
      rw [ih]
      omega
    | right =>
      show 2 * getPath (turns ++ path) + 1 = _ + (2 * getPath turns + 1)
      rw [ih]
      omega

/-- Every number below a power of two is made of the bits of a path. -/
theorem exists_getPath (length : Nat) {bits : Nat} (fits : bits < 2 ^ length) :
    ∃ path : TaskPath, path.getLength = length ∧ path.getPath = bits := by
  induction length generalizing bits with
  | zero =>
    have least : bits = 0 := Nat.lt_one_iff.mp fits
    exact ⟨[], rfl, least.symm⟩
  | succ length ih =>
    rw [Nat.pow_succ] at fits
    obtain ⟨path, rfl, parent⟩ := @ih (bits / 2) (by omega)
    rcases Nat.mod_two_eq_zero_or_one bits with even | odd
    · exact ⟨.left :: path, rfl, by unfold getPath; omega⟩
    · exact ⟨.right :: path, rfl, by unfold getPath; omega⟩

/-- The slots of a path are those of its relatives on the tracking level: of its descendants there,
or of its ancestor. -/
theorem mem_slots (path : TaskPath) (slot : Nat) :
    slot ∈ path.slots ↔ ∃ relative : TaskPath, relative.getLength = trackingLevel ∧
      relative.getPath = slot ∧ (path <:+ relative ∨ relative <:+ path) := by
  unfold slots firstSlot
  rw [Finset.mem_Ico]
  rcases Nat.le_total path.getLength trackingLevel with coarse | fine
  · -- the path itself, followed by as many turns as are missing
    rw [Nat.sub_eq_zero_of_le coarse, List.drop_zero]
    constructor
    · rintro ⟨low, high⟩
      have fits : slot - path.getPath * 2 ^ (trackingLevel - path.getLength) <
          2 ^ (trackingLevel - path.getLength) := by omega
      obtain ⟨turns, length, bits⟩ := exists_getPath _ fits
      refine ⟨turns ++ path, ?_, ?_, .inl ⟨turns, rfl⟩⟩
      · unfold getLength at length coarse ⊢
        rw [List.length_append]
        omega
      · rw [getPath_append, length, bits]
        omega
    · rintro ⟨relative, length, rfl, below | above⟩
      · obtain ⟨turns, rfl⟩ := below
        have missing : trackingLevel - path.getLength = getLength turns := by
          unfold getLength at length ⊢
          rw [List.length_append] at length
          omega
        have fits := getPath_lt turns
        rw [getPath_append, missing]
        omega
      · have same : relative = path := above.eq_of_length (Nat.le_antisymm above.length_le
          (coarse.trans (Nat.le_of_eq length.symm)))
        subst same
        have zero : trackingLevel - relative.getLength = 0 := by omega
        rw [zero]
        omega
  · -- the ancestor on the tracking level has the only slot
    have zero : trackingLevel - path.getLength = 0 := Nat.sub_eq_zero_of_le fine
    rw [zero, Nat.pow_zero, Nat.mul_one]
    constructor
    · rintro ⟨low, high⟩
      refine ⟨path.drop (path.getLength - trackingLevel), ?_, by omega, .inr (path.drop_suffix _)⟩
      unfold getLength at fine ⊢
      rw [List.length_drop]
      omega
    · rintro ⟨relative, length, rfl, related⟩
      have above : relative <:+ path := by
        rcases related with below | above
        · have same : path = relative := below.eq_of_length (Nat.le_antisymm below.length_le
            ((Nat.le_of_eq length).trans fine))
          exact same ▸ List.suffix_rfl
        · exact above
      have ancestor := List.suffix_iff_eq_drop.mp above
      have levels : path.length - relative.length = path.getLength - trackingLevel := by
        rw [← length]
        rfl
      rw [levels] at ancestor
      rw [← ancestor]
      omega

/-- The slots of all paths exist. -/
theorem slots_subset (path : TaskPath) : path.slots ⊆ Finset.range (2 ^ trackingLevel) := by
  intro slot found
  obtain ⟨relative, length, rfl, -⟩ := (path.mem_slots slot).mp found
  rw [← length]
  exact Finset.mem_range.mpr relative.getPath_lt

/-- The root has all slots. -/
theorem slots_root : root.slots = Finset.range (2 ^ trackingLevel) := by
  have first : firstSlot root = 0 := by
    unfold firstSlot root
    rw [List.drop_nil, getPath, Nat.zero_mul]
  unfold slots
  rw [first, Nat.zero_add, Finset.range_eq_Ico]
  rfl

/-- A path on the tracking level has its own slot. -/
theorem slots_of_eq {path : TaskPath} (level : path.getLength = trackingLevel) :
    path.slots = {path.getPath} := by
  unfold slots firstSlot
  rw [level, Nat.sub_self, List.drop_zero, Nat.pow_zero, Nat.mul_one]
  exact Nat.Ico_succ_singleton _

/-- Beyond the tracking level a path has the slot of its parent. -/
theorem slots_cons_of_le {path : TaskPath} (fine : trackingLevel ≤ path.getLength) (s : Side) :
    slots (s :: path) = path.slots := by
  have deeper : getLength (s :: path) - trackingLevel =
      (path.getLength - trackingLevel) + 1 := by
    unfold getLength at fine ⊢
    rw [List.length_cons]
    omega
  have zero : trackingLevel - getLength (s :: path) = 0 := by omega
  have zero' : trackingLevel - path.getLength = 0 := by omega
  unfold slots firstSlot
  rw [deeper, List.drop_succ_cons, zero, zero']

/-- The slots of a path above the tracking level are those of its children, one after the other. -/
theorem slots_children {path : TaskPath} (coarse : path.getLength < trackingLevel) :
    ∃ first middle last, first ≤ middle ∧ middle ≤ last ∧ path.slots = .Ico first last ∧
      path.getLeftChildPath.slots = .Ico first middle ∧
      path.getRightChildPath.slots = .Ico middle last := by
  obtain ⟨depth, levels⟩ := Nat.exists_eq_add_of_lt coarse
  have above (path : TaskPath) (coarse : path.getLength ≤ trackingLevel) :
      path.firstSlot = path.getPath * 2 ^ (trackingLevel - path.getLength) := by
    unfold firstSlot
    rw [Nat.sub_eq_zero_of_le coarse, List.drop_zero]
  have child (s : Side) : trackingLevel - getLength (s :: path) = depth := by
    unfold getLength at levels ⊢
    rw [List.length_cons]
    omega
  have length (s : Side) : getLength (s :: path) ≤ trackingLevel := coarse
  have whole : trackingLevel - path.getLength = depth + 1 := by omega
  refine ⟨path.getPath * 2 ^ (depth + 1), path.getPath * 2 ^ (depth + 1) + 2 ^ depth,
    path.getPath * 2 ^ (depth + 1) + 2 ^ (depth + 1), ?_, ?_, ?_, ?_, ?_⟩
  · exact Nat.le_add_right _ _
  · rw [Nat.pow_succ]
    omega
  · unfold slots
    rw [above path (Nat.le_of_lt coarse), whole]
  · show slots (.left :: path) = _
    have first : 2 * path.getPath * 2 ^ depth = path.getPath * 2 ^ (depth + 1) := by ring
    unfold slots
    rw [above _ (length .left), child, getPath, first]
  · show slots (.right :: path) = _
    have first : (2 * path.getPath + 1) * 2 ^ depth =
        path.getPath * 2 ^ (depth + 1) + 2 ^ depth := by ring
    have last : path.getPath * 2 ^ (depth + 1) + 2 ^ depth + 2 ^ depth =
        path.getPath * 2 ^ (depth + 1) + 2 ^ (depth + 1) := by ring
    unfold slots
    rw [above _ (length .right), child, getPath, first, last]

end TaskPath

/-! ## Tables -/

/-- `task_times`. -/
structure TaskTimes (F : Type) where
  /-- `times`. -/
  times : List F
  /-- There is a slot for every path of the tracking level. -/
  size : times.length = 2 ^ trackingLevel

namespace TaskTimes

variable {F : Type} [Field F]

/-- The constructor. -/
def create : TaskTimes F := ⟨List.replicate (1 <<< trackingLevel) 0, by
  rw [List.length_replicate, Nat.shiftLeft_eq, Nat.one_mul]⟩

/-- `times[slot] += time`; `none` outside of the table. -/
def addSlot (self : TaskTimes F) (slot : Nat) (time : F) : Option (TaskTimes F) :=
  if slot < self.times.length then
    some ⟨self.times.modify slot (· + time), by rw [List.length_modify, self.size]⟩
  else none

/-- `task_times::add`. -/
def add (self : TaskTimes F) (path : TaskPath) (time : Nat) : Option (TaskTimes F) :=
  if path.getLength = trackingLevel then self.addSlot path.getPath time
  else if path.getLength < trackingLevel then
    let f := time / 2
    (self.add path.getLeftChildPath f).bind fun self => self.add path.getRightChildPath (time - f)
  else self.add path.getParentPath time
termination_by (trackingLevel - path.getLength) + (path.getLength - trackingLevel)
decreasing_by
  all_goals
    simp only [TaskPath.getLength_getLeftChildPath, TaskPath.getLength_getRightChildPath,
      TaskPath.getLength_getParentPath]
    omega

/-- `task_times::get_time`; `none` for a read outside of the table. -/
def getTime (self : TaskTimes F) (path : TaskPath) : Option F :=
  if path.getLength = trackingLevel then self.times[path.getPath]?
  else if path.getLength < trackingLevel then
    (self.getTime path.getLeftChildPath).bind fun left =>
      (self.getTime path.getRightChildPath).map fun right => left + right
  else (self.getTime path.getParentPath).map (· / 2)
termination_by (trackingLevel - path.getLength) + (path.getLength - trackingLevel)
decreasing_by
  all_goals
    simp only [TaskPath.getLength_getLeftChildPath, TaskPath.getLength_getRightChildPath,
      TaskPath.getLength_getParentPath]
    omega

/-- `task_times::operator+=` — the tables have the same slots. -/
def addAssign (self other : TaskTimes F) : TaskTimes F :=
  ⟨List.zipWith (· + ·) self.times other.times, by
    rw [List.length_zipWith, self.size, other.size, Nat.min_self]⟩

/-- `task_times::operator-`. -/
def sub (self other : TaskTimes F) : TaskTimes F :=
  ⟨List.zipWith (· - ·) self.times other.times, by
    rw [List.length_zipWith, self.size, other.size, Nat.min_self]⟩

/-! ## The slots of a table -/

/-- The time in a slot. -/
def slot (self : TaskTimes F) (i : Nat) : F := self.times.getD i 0

/-- A slot of the table is read. -/
theorem getElem?_times (self : TaskTimes F) {i : Nat} (inside : i < 2 ^ trackingLevel) :
    self.times[i]? = some (self.slot i) := by
  rw [← self.size] at inside
  unfold slot
  rw [List.getD_eq_getElem?_getD, List.getElem?_eq_getElem inside, Option.getD_some]

/-- A new table is empty. -/
theorem slot_create (i : Nat) : (create : TaskTimes F).slot i = 0 := by
  unfold slot create
  rw [List.getD_eq_getElem?_getD, List.getElem?_replicate]
  split <;> rfl

/-- A time is added to one slot of the table. -/
theorem addSlot_spec (self : TaskTimes F) {i : Nat} (inside : i < 2 ^ trackingLevel) (time : F) :
    ∃ self', self.addSlot i time = some self' ∧
      ∀ j, self'.slot j = self.slot j + if j = i then time else 0 := by
  rw [← self.size] at inside
  refine ⟨_, if_pos inside, fun j => ?_⟩
  unfold slot
  rw [List.getD_eq_getElem?_getD, List.getD_eq_getElem?_getD]
  by_cases here : j = i
  · rw [here, List.getElem?_modify_eq, List.getElem?_eq_getElem inside, if_pos rfl]
    rfl
  · rw [List.getElem?_modify_ne _ _ (Ne.symm here), if_neg here, add_zero]

/-- Adding tables adds their slots. -/
theorem slot_addAssign (self other : TaskTimes F) {i : Nat} (inside : i < 2 ^ trackingLevel) :
    (self.addAssign other).slot i = self.slot i + other.slot i := by
  have sum : (self.addAssign other).times[i]? = some (self.slot i + other.slot i) := by
    unfold addAssign
    rw [List.getElem?_zipWith, self.getElem?_times inside, other.getElem?_times inside]
  rw [(self.addAssign other).getElem?_times inside, Option.some.injEq] at sum
  exact sum

/-- Subtracting tables subtracts their slots. -/
theorem slot_sub (self other : TaskTimes F) {i : Nat} (inside : i < 2 ^ trackingLevel) :
    (self.sub other).slot i = self.slot i - other.slot i := by
  have difference : (self.sub other).times[i]? = some (self.slot i - other.slot i) := by
    unfold sub
    rw [List.getElem?_zipWith, self.getElem?_times inside, other.getElem?_times inside]
  rw [(self.sub other).getElem?_times inside, Option.some.injEq] at difference
  exact difference

/-! ## Adding times -/

/-- Shares of a time over slots: nothing goes elsewhere, nothing is lost, and every slot has the
quotient, rounded down or up. -/
structure Shares (slots : Finset Nat) (depth time : Nat) (share : Nat → Nat) : Prop where
  /-- No other slot is given a share. -/
  outside : ∀ i, i ∉ slots → share i = 0
  /-- The shares add up to the time. -/
  total : ∑ i ∈ slots, share i = time
  /-- No share is less than the quotient rounded down. -/
  low : ∀ i ∈ slots, time / 2 ^ depth ≤ share i
  /-- No share is greater than the quotient rounded up. -/
  high : ∀ i ∈ slots, share i ≤ (time + 2 ^ depth - 1) / 2 ^ depth

/-- Shares differ by at most one unit. -/
theorem Shares.even {slots : Finset Nat} {depth time : Nat} {share : Nat → Nat}
    (shares : Shares slots depth time share) {i j : Nat} (left : i ∈ slots) (right : j ∈ slots) :
    share i ≤ share j + 1 := by
  have positive : 0 < 2 ^ depth := Nat.two_pow_pos depth
  have rounded : (time + 2 ^ depth - 1) / 2 ^ depth ≤ time / 2 ^ depth + 1 := by
    rw [← Nat.add_div_right _ positive]
    exact Nat.div_le_div_right (Nat.sub_le _ _)
  exact (shares.high i left).trans (rounded.trans (Nat.succ_le_succ (shares.low j right)))

/-- One slot is given all of the time. -/
theorem Shares.single (i time : Nat) : Shares {i} 0 time fun j => if j = i then time else 0 where
  outside j other := if_neg fun same => other (Finset.mem_singleton.mpr same)
  total := by rw [Finset.sum_singleton, if_pos rfl]
  low j found := by
    rw [if_pos (Finset.mem_singleton.mp found)]
    omega
  high j found := by
    rw [if_pos (Finset.mem_singleton.mp found)]
    omega

/-- Shares of the two halves of a time are shares of the whole. -/
theorem Shares.join {first middle last depth time : Nat} {share share' : Nat → Nat}
    (before : first ≤ middle) (behind : middle ≤ last)
    (left : Shares (.Ico first middle) depth (time / 2) share)
    (right : Shares (.Ico middle last) depth (time - time / 2) share') :
    Shares (.Ico first last) (depth + 1) time fun i => share i + share' i := by
  have inLeft {i : Nat} (found : i ∈ Finset.Ico first middle) : share' i = 0 :=
    right.outside i fun also => by
      rw [Finset.mem_Ico] at found also
      omega
  have inRight {i : Nat} (found : i ∈ Finset.Ico middle last) : share i = 0 :=
    left.outside i fun also => by
      rw [Finset.mem_Ico] at found also
      omega
  have half {i : Nat} (found : i ∈ Finset.Ico first last) :
      i ∈ Finset.Ico first middle ∨ i ∈ Finset.Ico middle last := by
    rw [Finset.mem_Ico] at found ⊢
    rw [Finset.mem_Ico]
    omega
  have power : 2 ^ (depth + 1) = 2 * 2 ^ depth := Nat.pow_succ'
  have rounded : (time - time / 2 + 2 ^ depth - 1) / 2 ^ depth =
      (time + 2 ^ (depth + 1) - 1) / 2 ^ (depth + 1) := by
    rw [power, ← Nat.div_div_eq_div_mul]
    congr 1
    omega
  constructor
  · intro i outside
    have notLeft : i ∉ Finset.Ico first middle := fun found => outside (by
      rw [Finset.mem_Ico] at found ⊢
      omega)
    have notRight : i ∉ Finset.Ico middle last := fun found => outside (by
      rw [Finset.mem_Ico] at found ⊢
      omega)
    rw [left.outside i notLeft, right.outside i notRight]
  · have first' : ∑ i ∈ Finset.Ico first middle, (share i + share' i) = time / 2 := by
      rw [← left.total]
      exact Finset.sum_congr rfl fun i found => by rw [inLeft found, Nat.add_zero]
    have last' : ∑ i ∈ Finset.Ico middle last, (share i + share' i) = time - time / 2 := by
      rw [← right.total]
      exact Finset.sum_congr rfl fun i found => by rw [inRight found, Nat.zero_add]
    rw [← Finset.sum_Ico_consecutive _ before behind, first', last']
    omega
  · intro i found
    rw [power, ← Nat.div_div_eq_div_mul]
    rcases half found with found | found
    · exact (left.low i found).trans (Nat.le_add_right _ _)
    · have more : time / 2 / 2 ^ depth ≤ (time - time / 2) / 2 ^ depth :=
        Nat.div_le_div_right (by omega)
      exact more.trans ((right.low i found).trans (Nat.le_add_left _ _))
  · intro i found
    rw [← rounded]
    rcases half found with found | found
    · have more : (time / 2 + 2 ^ depth - 1) / 2 ^ depth ≤
          (time - time / 2 + 2 ^ depth - 1) / 2 ^ depth := Nat.div_le_div_right (by omega)
      rw [inLeft found, Nat.add_zero]
      exact (left.high i found).trans more
    · rw [inRight found, Nat.zero_add]
      exact right.high i found

/-- Up to the tracking level a time is spread over the slots below the path; the induction is on
the number of levels in between. -/
theorem add_spec_of_le {depth : Nat} (self : TaskTimes F) {path : TaskPath} (time : Nat)
    (levels : path.getLength + depth = trackingLevel) :
    ∃ self' share, self.add path time = some self' ∧ Shares path.slots depth time share ∧
      ∀ i, self'.slot i = self.slot i + (share i : F) := by
  induction depth generalizing self path time with
  | zero =>
    rw [Nat.add_zero] at levels
    have inside : path.getPath < 2 ^ trackingLevel := levels ▸ path.getPath_lt
    obtain ⟨self', added, slots⟩ := self.addSlot_spec inside (time : F)
    rw [TaskPath.slots_of_eq levels]
    refine ⟨self', _, ?_, .single path.getPath time, fun i => ?_⟩
    · rw [add, if_pos levels, added]
    · rw [slots, Nat.cast_ite, Nat.cast_zero]
  | succ depth ih =>
    obtain ⟨first, middle, last, before, behind, whole, left, right⟩ :=
      TaskPath.slots_children (by omega : path.getLength < trackingLevel)
    obtain ⟨between, share, added, shares, slots⟩ := @ih self path.getLeftChildPath (time / 2) (by
      rw [TaskPath.getLength_getLeftChildPath]
      omega)
    obtain ⟨self', share', added', shares', slots'⟩ :=
      @ih between path.getRightChildPath (time - time / 2) (by
        rw [TaskPath.getLength_getRightChildPath]
        omega)
    rw [left] at shares
    rw [right] at shares'
    refine ⟨self', _, ?_, whole ▸ shares.join before behind shares', fun i => ?_⟩
    · rw [add, if_neg (by omega), if_pos (by omega)]
      show (self.add path.getLeftChildPath (time / 2)).bind _ = _
      rw [added, Option.bind_some, added']
    · rw [slots', slots, Nat.cast_add, add_assoc]

/-- A time is spread over the slots of its path. -/
theorem add_spec (self : TaskTimes F) (path : TaskPath) (time : Nat) :
    ∃ self' share, self.add path time = some self' ∧
      Shares path.slots (trackingLevel - path.getLength) time share ∧
      ∀ i, self'.slot i = self.slot i + (share i : F) := by
  induction path with
  | nil => exact self.add_spec_of_le time (Nat.zero_add _)
  | cons s parent ih =>
    by_cases coarse : TaskPath.getLength (s :: parent) ≤ trackingLevel
    · exact self.add_spec_of_le time (Nat.add_sub_of_le coarse)
    · have fine : trackingLevel ≤ TaskPath.getLength parent := Nat.le_of_lt_succ (not_le.mp coarse)
      have zero : trackingLevel - TaskPath.getLength (s :: parent) =
          trackingLevel - TaskPath.getLength parent := by omega
      rw [add, if_neg (by omega), if_neg (by omega), TaskPath.slots_cons_of_le fine, zero]
      exact ih

/-! ## Queries -/

/-- The time of the tasks below a path: what is in its slots, halved for every level beyond the
tracking level. -/
def timeOf (self : TaskTimes F) (path : TaskPath) : F :=
  (∑ i ∈ path.slots, self.slot i) / 2 ^ (path.getLength - trackingLevel)

/-- Up to the tracking level a query sums up the slots below the path. -/
theorem getTime_of_le {depth : Nat} (self : TaskTimes F) {path : TaskPath}
    (levels : path.getLength + depth = trackingLevel) :
    self.getTime path = some (∑ i ∈ path.slots, self.slot i) := by
  induction depth generalizing path with
  | zero =>
    rw [Nat.add_zero] at levels
    have inside : path.getPath < 2 ^ trackingLevel := levels ▸ path.getPath_lt
    rw [getTime, if_pos levels, self.getElem?_times inside, TaskPath.slots_of_eq levels,
      Finset.sum_singleton]
  | succ depth ih =>
    obtain ⟨first, middle, last, before, behind, whole, left, right⟩ :=
      TaskPath.slots_children (by omega : path.getLength < trackingLevel)
    have fromLeft := @ih path.getLeftChildPath (by
      rw [TaskPath.getLength_getLeftChildPath]
      omega)
    have fromRight := @ih path.getRightChildPath (by
      rw [TaskPath.getLength_getRightChildPath]
      omega)
    rw [getTime, if_neg (by omega), if_pos (by omega), fromLeft, fromRight, left, right, whole,
      ← Finset.sum_Ico_consecutive _ before behind]
    rfl

/-- Every query reads inside of the table. -/
theorem getTime_eq (self : TaskTimes F) (path : TaskPath) :
    self.getTime path = some (self.timeOf path) := by
  have coarse {path : TaskPath} (levels : path.getLength ≤ trackingLevel) :
      self.getTime path = some (self.timeOf path) := by
    unfold timeOf
    rw [Nat.sub_eq_zero_of_le levels, pow_zero, div_one]
    exact self.getTime_of_le (Nat.add_sub_of_le levels)
  induction path with
  | nil => exact coarse (Nat.zero_le _)
  | cons s parent ih =>
    by_cases levels : TaskPath.getLength (s :: parent) ≤ trackingLevel
    · exact coarse levels
    · have fine : trackingLevel ≤ TaskPath.getLength parent := Nat.le_of_lt_succ (not_le.mp levels)
      have deeper : TaskPath.getLength (s :: parent) - trackingLevel =
          TaskPath.getLength parent - trackingLevel + 1 := Nat.succ_sub fine
      have query : self.getTime (s :: parent) = (self.getTime parent).map (· / 2) := by
        rw [getTime, if_neg (by omega), if_neg (by omega)]
        rfl
      rw [query, ih, Option.map_some]
      unfold timeOf
      rw [TaskPath.slots_cons_of_le fine, deeper, pow_succ, div_div]

/-- The times of the children add up to that of a path. -/
theorem timeOf_children [CharZero F] (self : TaskTimes F) (path : TaskPath) :
    self.timeOf path = self.timeOf path.getLeftChildPath + self.timeOf path.getRightChildPath := by
  by_cases coarse : path.getLength < trackingLevel
  · -- both children sum up slots of the table
    obtain ⟨first, middle, last, before, behind, whole, left, right⟩ :=
      TaskPath.slots_children coarse
    unfold timeOf
    rw [TaskPath.getLength_getLeftChildPath, TaskPath.getLength_getRightChildPath,
      Nat.sub_eq_zero_of_le (Nat.le_of_lt coarse), Nat.sub_eq_zero_of_le coarse, pow_zero, div_one,
      div_one, div_one, left, right, whole, Finset.sum_Ico_consecutive _ before behind]
  · -- both children are given half of the same slot
    have fine : trackingLevel ≤ path.getLength := not_lt.mp coarse
    have left : path.getLeftChildPath.slots = path.slots := TaskPath.slots_cons_of_le fine .left
    have right : path.getRightChildPath.slots = path.slots := TaskPath.slots_cons_of_le fine .right
    have deeper : path.getLength + 1 - trackingLevel = path.getLength - trackingLevel + 1 :=
      Nat.succ_sub fine
    have two : NeZero (2 : F) := NeZero.charZero_ofNat
    unfold timeOf
    rw [TaskPath.getLength_getLeftChildPath, TaskPath.getLength_getRightChildPath, left, right,
      deeper, pow_succ, ← div_div, add_halves]

/-- Adding tables adds the times of every path. -/
theorem timeOf_addAssign (self other : TaskTimes F) (path : TaskPath) :
    (self.addAssign other).timeOf path = self.timeOf path + other.timeOf path := by
  unfold timeOf
  rw [← add_div, ← Finset.sum_add_distrib]
  congr 1
  exact Finset.sum_congr rfl fun i found =>
    self.slot_addAssign other (Finset.mem_range.mp (path.slots_subset found))

/-- Subtracting tables subtracts the times of every path. -/
theorem timeOf_sub (self other : TaskTimes F) (path : TaskPath) :
    (self.sub other).timeOf path = self.timeOf path - other.timeOf path := by
  unfold timeOf
  rw [← sub_div, ← Finset.sum_sub_distrib]
  congr 1
  exact Finset.sum_congr rfl fun i found =>
    self.slot_sub other (Finset.mem_range.mp (path.slots_subset found))

/-! ## Sequences of additions -/

/-- The calls of `add`, one after the other. -/
def addAll (self : TaskTimes F) (calls : List (TaskPath × Nat)) : Option (TaskTimes F) :=
  calls.foldlM (fun self call => self.add call.1 call.2) self

/-- An addition adds its time to that of the root. -/
theorem timeOf_root_add {self self' : TaskTimes F} {path : TaskPath} {time : Nat}
    (added : self.add path time = some self') :
    self'.timeOf .root = self.timeOf .root + (time : F) := by
  obtain ⟨after, share, result, shares, slots⟩ := self.add_spec path time
  rw [added, Option.some.injEq] at result
  subst result
  have total : ∑ i ∈ Finset.range (2 ^ trackingLevel), share i = time := by
    rw [← shares.total]
    exact (Finset.sum_subset path.slots_subset fun i _ => shares.outside i).symm
  have sum (table : TaskTimes F) :
      table.timeOf .root = ∑ i ∈ Finset.range (2 ^ trackingLevel), table.slot i := by
    unfold timeOf
    rw [TaskPath.slots_root]
    show _ / 2 ^ (0 - trackingLevel) = _
    rw [Nat.zero_sub, pow_zero, div_one]
  rw [sum, sum, ← total, Nat.cast_sum, ← Finset.sum_add_distrib]
  exact Finset.sum_congr rfl fun i _ => slots i

/-- Any additions succeed, and add the sum of their times to the time of the root. -/
theorem addAll_spec (self : TaskTimes F) (calls : List (TaskPath × Nat)) :
    ∃ self', self.addAll calls = some self' ∧
      self'.timeOf .root = self.timeOf .root + ((calls.map Prod.snd).sum : F) := by
  induction calls generalizing self with
  | nil => exact ⟨self, rfl, by simp⟩
  | cons call calls ih =>
    obtain ⟨between, -, added, -⟩ := self.add_spec call.1 call.2
    obtain ⟨self', rest, time⟩ := ih between
    refine ⟨self', ?_, ?_⟩
    · unfold addAll at rest ⊢
      rw [List.foldlM_cons, added]
      exact rest
    · rw [time, timeOf_root_add added, List.map_cons, List.sum_cons, Nat.cast_add, add_assoc]

/-! ## Conservation -/

/-- Task times are conserved, and every access is inside of the table. The time of the root is the
sum of all that was added. An addition spreads its time over the slots of the relatives of its path
on the tracking level, the descendants or the one ancestor, in shares that differ by at most one
unit. The time of a path is the sum of those of its children, and sums and differences of tables
are sums and differences of their times. -/
theorem conserved [CharZero F] :
    (∀ calls : List (TaskPath × Nat), ∃ self : TaskTimes F, create.addAll calls = some self ∧
      self.getTime .root = some ((calls.map Prod.snd).sum : F)) ∧
    (∀ (self : TaskTimes F) (path : TaskPath) (time : Nat),
      ∃ (self' : TaskTimes F) (share : Nat → Nat), self.add path time = some self' ∧
      (∀ i, self'.slot i = self.slot i + (share i : F)) ∧
      (∀ i, i ∉ path.slots → share i = 0) ∧
      ∑ i ∈ path.slots, share i = time ∧
      ∀ i ∈ path.slots, ∀ j ∈ path.slots, share i ≤ share j + 1) ∧
    (∀ path : TaskPath, path.slots.card = 2 ^ (trackingLevel - path.getLength) ∧
      ∀ i, i ∈ path.slots ↔ ∃ relative : TaskPath, relative.getLength = trackingLevel ∧
        relative.getPath = i ∧ (path <:+ relative ∨ relative <:+ path)) ∧
    (∀ (self : TaskTimes F) (path : TaskPath), ∃ left right,
      self.getTime path.getLeftChildPath = some left ∧
      self.getTime path.getRightChildPath = some right ∧
      self.getTime path = some (left + right)) ∧
    ∀ (self other : TaskTimes F) (path : TaskPath), ∃ time time',
      self.getTime path = some time ∧ other.getTime path = some time' ∧
      (self.addAssign other).getTime path = some (time + time') ∧
      (self.sub other).getTime path = some (time - time') := by
  refine ⟨fun calls => ?_, fun self path time => ?_, fun path => ⟨path.card_slots, path.mem_slots⟩,
    fun self path => ?_, fun self other path => ?_⟩
  · obtain ⟨self, added, time⟩ := (create : TaskTimes F).addAll_spec calls
    have empty : (create : TaskTimes F).timeOf .root = 0 := by
      unfold timeOf
      rw [Finset.sum_eq_zero fun i _ => slot_create i, zero_div]
    rw [empty, zero_add] at time
    exact ⟨self, added, time ▸ self.getTime_eq _⟩
  · obtain ⟨self', share, added, shares, slots⟩ := self.add_spec path time
    exact ⟨self', share, added, slots, shares.outside, shares.total, fun i left j right =>
      shares.even left right⟩
  · refine ⟨_, _, self.getTime_eq _, self.getTime_eq _, ?_⟩
    rw [← self.timeOf_children, self.getTime_eq]
  · refine ⟨_, _, self.getTime_eq path, other.getTime_eq path, ?_, ?_⟩
    · rw [← timeOf_addAssign, getTime_eq]
    · rw [← timeOf_sub, getTime_eq]

/-- The times of a root task and of one of its children. -/
theorem conserved_two : ∃ self : TaskTimes ℚ,
    create.addAll [([], 5), ([.left], 3)] = some self ∧ self.getTime .root = some 8 := by
  obtain ⟨self, added, time⟩ := (@conserved ℚ _ _).1 [([], 5), ([.left], 3)]
  refine ⟨self, added, time.trans ?_⟩
  norm_num

end TaskTimes

end AllScale
