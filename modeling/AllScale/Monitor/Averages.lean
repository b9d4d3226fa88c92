import Mathlib.Algebra.BigOperators.Group.List.Basic
import Mathlib.Algebra.CharZero.Defs
import Mathlib.Algebra.Field.Basic
import Mathlib.Algebra.Field.Rat
import Mathlib.Algebra.Order.Ring.Rat

/-!
# Averages of the last times

The monitor averages the last times of iterations and of work items. Both functions go backwards
through the times and stop after the requested number of them. The one for work items divides by the
number of times it has added, the one for iterations by one more.
-/

namespace AllScale

section Functions

variable {F : Type} [Field F]

/-- A division by a number of times; there is no result for zero. -/
def divideBy (sum : F) (count : Nat) : Option F := if count = 0 then none else some (sum / count)

/-- The loop of `monitor::get_avg_work_item_times`, from the last time on. -/
def workItemLoop (avg : F) (j : Nat) : List F → F
  | [] => avg
  | i :: rest => if j = 0 then avg else workItemLoop (avg + i) (j - 1) rest

/-- `monitor::get_avg_work_item_times`. -/
def getAvgWorkItemTimes (workItemTimes : List F) (numWorkItems : Nat) : Option F :=
  let avg := workItemLoop 0 numWorkItems workItemTimes.reverse
  if numWorkItems ≤ workItemTimes.length then divideBy avg numWorkItems
  else divideBy avg workItemTimes.length

/-- The loop of `monitor::get_avg_time_last_iterations`, from the last time on. It returns the sum
and the counter, which has 32 bits. -/
def iterationLoop (numIters : Nat) (avgTime : F) (j : Nat) : List F → F × Nat
  | [] => (avgTime, j)
  | i :: rest =>
    if j < numIters then iterationLoop numIters (avgTime + i) ((j + 1) % 2 ^ 32) rest
    else (avgTime, j)

/-- `monitor::get_avg_time_last_iterations`. -/
def getAvgTimeLastIterations (iterationTime : List F) (numIters : Nat) : Option F :=
  let (avgTime, j) := iterationLoop numIters 0 0 iterationTime.reverse
  divideBy avgTime ((j + 1) % 2 ^ 32)

/-- The last times, of which there are at most as many as requested. -/
def lastTimes (times : List F) (k : Nat) : List F := times.drop (times.length - k)

/-- The mean of times. -/
def mean (times : List F) : F := times.sum / times.length

omit [Field F] in
/-- There are as many last times as requested, or all. -/
theorem length_lastTimes (times : List F) (k : Nat) :
    (lastTimes times k).length = min k times.length := by
  unfold lastTimes
  rw [List.length_drop]
  omega

/-- The first of the reversed times are the last times. -/
theorem sum_take_reverse (times : List F) (k : Nat) :
    (times.reverse.take k).sum = (lastTimes times k).sum := by
  rw [List.take_reverse, List.sum_reverse]
  rfl

/-- The loop over the work items adds the requested number of times. -/
theorem workItemLoop_eq (times : List F) (avg : F) (j : Nat) :
    workItemLoop avg j times = avg + (times.take j).sum := by
  induction times generalizing avg j with
  | nil => simp [workItemLoop]
  | cons i times ih =>
    rw [workItemLoop]
    cases j with
    | zero => simp
    | succ j =>
      rw [if_neg (Nat.succ_ne_zero j), ih, List.take_succ_cons, List.sum_cons, Nat.add_sub_cancel,
        add_assoc]

/-- The loop over the iterations adds the requested number of times, and counts them. -/
theorem iterationLoop_eq {numIters : Nat} (fits : numIters < 2 ^ 32) (times : List F) (avgTime : F)
    {j : Nat} (counted : j ≤ numIters) : iterationLoop numIters avgTime j times =
      (avgTime + (times.take (numIters - j)).sum, j + min (numIters - j) times.length) := by
  induction times generalizing avgTime j with
  | nil => simp [iterationLoop]
  | cons i times ih =>
    rw [iterationLoop]
    by_cases more : j < numIters
    · have next : (j + 1) % 2 ^ 32 = j + 1 := Nat.mod_eq_of_lt (by omega)
      obtain ⟨rest, left⟩ : ∃ rest, numIters - j = rest + 1 := ⟨numIters - j - 1, by omega⟩
      have left' : numIters - (j + 1) = rest := by omega
      rw [if_pos more, next, ih _ (by omega), left, left', List.take_succ_cons, List.sum_cons,
        List.length_cons, add_assoc]
      congr 1
      omega
    · have zero : numIters - j = 0 := by omega
      rw [if_neg more, zero]
      simp

/-- For work items the result is the mean of the last times. -/
theorem getAvgWorkItemTimes_eq {times : List F} (nonempty : times ≠ []) {k : Nat} (lower : 1 ≤ k) :
    getAvgWorkItemTimes times k = some (mean (lastTimes times k)) := by
  have positive : 0 < times.length := List.length_pos_of_ne_nil nonempty
  unfold getAvgWorkItemTimes mean
  rw [workItemLoop_eq, sum_take_reverse, zero_add, length_lastTimes]
  split
  · rename_i inside
    rw [divideBy, if_neg (by omega), Nat.min_eq_left inside]
  · rename_i outside
    rw [divideBy, if_neg (by omega), Nat.min_eq_right (by omega)]

/-- For iterations the sum of the last times is divided by one more than their number. -/
theorem getAvgTimeLastIterations_eq (times : List F) {k : Nat} (fits : k < 2 ^ 32) :
    getAvgTimeLastIterations times k = divideBy (lastTimes times k).sum
      (((lastTimes times k).length + 1) % 2 ^ 32) := by
  unfold getAvgTimeLastIterations
  rw [iterationLoop_eq fits _ _ (Nat.zero_le k), Nat.sub_zero, sum_take_reverse, zero_add, zero_add,
    length_lastTimes, List.length_reverse]

/-- The average of the last iterations is the mean of the last times, as for work items, and times
that are all the same have this time as their average. -/
structure AveragesLast (times : List F) (k : Nat) : Prop where
  /-- The mean. -/
  mean : getAvgTimeLastIterations times k = some (mean (lastTimes times k))
  /-- The function for work items. -/
  same : getAvgTimeLastIterations times k = getAvgWorkItemTimes times k
  /-- A constant sequence. -/
  constant : ∀ time, (∀ other ∈ times, other = time) →
    getAvgTimeLastIterations times k = some time ∧ getAvgWorkItemTimes times k = some time

/-- The average of the last iterations is their mean exactly if their times sum up to zero, and the
counter does not overflow behind them. -/
theorem averagesLast_iff [CharZero F] {times : List F} (nonempty : times ≠ []) {k : Nat}
    (lower : 1 ≤ k) (fits : k < 2 ^ 32) :
    AveragesLast times k ↔
      (lastTimes times k).sum = 0 ∧ (lastTimes times k).length ≠ 2 ^ 32 - 1 := by
  have positive : 0 < times.length := List.length_pos_of_ne_nil nonempty
  have count : 1 ≤ (lastTimes times k).length ∧ (lastTimes times k).length < 2 ^ 32 := by
    rw [length_lastTimes]
    omega
  have iterations := getAvgTimeLastIterations_eq times fits
  have workItems := getAvgWorkItemTimes_eq nonempty lower
  have casted : ((lastTimes times k).length : F) ≠ 0 :=
    Nat.cast_ne_zero.mpr (Nat.one_le_iff_ne_zero.mp count.1)
  have next (bounded : (lastTimes times k).length ≠ 2 ^ 32 - 1) :
      ((lastTimes times k).length + 1) % 2 ^ 32 = (lastTimes times k).length + 1 :=
    Nat.mod_eq_of_lt (by omega)
  constructor
  · intro averages
    have equal := iterations.symm.trans averages.mean
    unfold divideBy at equal
    split at equal
    · cases equal
    · rename_i inside
      have bounded : (lastTimes times k).length ≠ 2 ^ 32 - 1 := by omega
      refine ⟨?_, bounded⟩
      rw [next bounded, Option.some.injEq, mean,
        div_eq_div_iff (Nat.cast_ne_zero.mpr (Nat.succ_ne_zero _)) casted, Nat.cast_succ, mul_add,
        mul_one, left_eq_add] at equal
      exact equal
  · rintro ⟨zero, bounded⟩
    have average : getAvgTimeLastIterations times k = some 0 := by
      rw [iterations, next bounded, zero, divideBy, if_neg (Nat.succ_ne_zero _), zero_div]
    have mean_eq : mean (lastTimes times k) = 0 := by
      rw [mean, zero, zero_div]
    rw [mean_eq] at workItems
    refine ⟨by rw [average, mean_eq], average.trans workItems.symm, fun time all => ?_⟩
    have constant : lastTimes times k = List.replicate (lastTimes times k).length time :=
      List.eq_replicate_of_mem fun other found => all other (List.mem_of_mem_drop found)
    rw [constant, List.sum_replicate, nsmul_eq_mul, mul_eq_zero] at zero
    have time_eq : time = 0 := zero.resolve_left casted
    rw [time_eq]
    exact ⟨average, workItems⟩

end Functions

/-- Two iterations that have taken no time. -/
theorem averagesLast_two : ([0, 0] : List ℚ) ≠ [] ∧
    (AveragesLast ([0, 0] : List ℚ) 2 ↔
      (lastTimes ([0, 0] : List ℚ) 2).sum = 0 ∧
        (lastTimes ([0, 0] : List ℚ) 2).length ≠ 2 ^ 32 - 1) :=
  ⟨by decide, averagesLast_iff (by decide) (by decide) (by decide)⟩

/-- Three iterations of two seconds each: the average of the last two is less than two seconds. -/
theorem not_averagesLast : getAvgTimeLastIterations ([2, 2, 2] : List ℚ) 2 = some (4 / 3) ∧
    getAvgWorkItemTimes ([2, 2, 2] : List ℚ) 2 = some 2 ∧
    ¬ AveragesLast ([2, 2, 2] : List ℚ) 2 := by
  have average : getAvgTimeLastIterations ([2, 2, 2] : List ℚ) 2 = some (4 / 3) := by
    decide +kernel
  have workItems : getAvgWorkItemTimes ([2, 2, 2] : List ℚ) 2 = some 2 := by decide +kernel
  refine ⟨average, workItems, fun averages => ?_⟩
  have same := averages.same
  rw [average, workItems] at same
  exact absurd same (by decide +kernel)

end AllScale
