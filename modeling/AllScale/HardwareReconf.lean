import AllScale.Lib.GreedyCover
import Mathlib.Order.Interval.Finset.Nat

/-!
# Frequencies of many cores

A bulk change of frequencies goes through the cores and leaves every core that does not run at the
target to the function that sets a range of cores. What it takes for the end of the range is the
number of its cores there, so with a core a whole range of cores is set that begins with it: the
farther behind the core is, the longer is its range.
-/

namespace AllScale

open GreedyCover

/-- `hw_topology`. -/
structure HwTopology where
  /-- `num_physical_cores`. -/
  numPhysicalCores : Nat
  /-- `num_logical_cores`. -/
  numLogicalCores : Nat
  /-- `num_hw_threads`. -/
  numHwThreads : Nat
  /-- There is a thread for every core. -/
  positive : 0 < numHwThreads
  /-- All cores have equally many. -/
  multiple : numLogicalCores = numPhysicalCores * numHwThreads

/-- What `cpufreq` keeps, with a record of its calls. -/
@[ext] structure CpuFreq where
  /-- `cpufreq_get_freq_hardware`. -/
  getFreqHardware : Nat → Nat
  /-- The cores that `cpufreq_set_frequency` has been called for. -/
  changed : Finset Nat

/-- `cpufreq_set_frequency`. -/
def CpuFreq.setFrequency (self : CpuFreq) (cpu targetFrequency : Nat) : CpuFreq where
  getFreqHardware := Function.update self.getFreqHardware cpu targetFrequency
  changed := insert cpu self.changed

/-- Some cores have been set. -/
def CpuFreq.setAll (self : CpuFreq) (cpus : Finset Nat) (targetFrequency : Nat) : CpuFreq where
  getFreqHardware cpu := if cpu ∈ cpus then targetFrequency else self.getFreqHardware cpu
  changed := self.changed ∪ cpus

namespace HardwareReconf

/-- The values of a loop variable that is increased by a step while it is less than the end. -/
def cpuIds (first last step : Nat) : List Nat :=
  List.range' first ((last - first + step - 1) / step) step

variable (initialTopo : HwTopology)

/-- `hardware_reconf::set_frequency`, for the cores that exist. -/
def setFrequency (minCpu maxCpu targetFrequency : Nat) (cpufreq : CpuFreq) : CpuFreq :=
  let hwThreads := initialTopo.numHwThreads
  (cpuIds minCpu (minCpu + maxCpu * hwThreads) hwThreads).foldl (fun cpufreq cpuId =>
    if cpuId < initialTopo.numLogicalCores then cpufreq.setFrequency cpuId targetFrequency
    else cpufreq) cpufreq

/-- The loop in `hardware_reconf::set_frequencies_bulk`, with the number of cores that it has left
to `set_frequency`. -/
def setFrequenciesFrom (numCpus targetFrequency : Nat) : List Nat → Nat → CpuFreq → CpuFreq
  | [], _, cpufreq => cpufreq
  | cpuId :: cpuIds, count, cpufreq =>
    if cpufreq.getFreqHardware cpuId ≠ targetFrequency then
      if count = numCpus then cpufreq
      else setFrequenciesFrom numCpus targetFrequency cpuIds (count + 1)
        (setFrequency initialTopo cpuId (cpuId + 1) targetFrequency cpufreq)
    else setFrequenciesFrom numCpus targetFrequency cpuIds count cpufreq

/-- `hardware_reconf::set_frequencies_bulk`. -/
def setFrequenciesBulk (numCpus targetFrequency : Nat) (cpufreq : CpuFreq) : CpuFreq :=
  setFrequenciesFrom initialTopo numCpus targetFrequency
    (cpuIds 0 initialTopo.numLogicalCores initialTopo.numHwThreads) 0 cpufreq

/-- A bulk change is bounded: at most as many cores are set as demanded, all of them cores of the
machine that did not run at the target, and the frequencies of the others are kept. -/
structure Bounded (numCpus targetFrequency : Nat) (frequency : Nat → Nat) (after : CpuFreq) :
    Prop where
  /-- At most so many cores are set. -/
  few : after.changed.card ≤ numCpus
  /-- They exist. -/
  exist : ∀ cpu ∈ after.changed, cpu < initialTopo.numLogicalCores
  /-- They ran at other frequencies. -/
  other : ∀ cpu ∈ after.changed, frequency cpu ≠ targetFrequency
  /-- They run at the target now. -/
  reached : ∀ cpu ∈ after.changed, after.getFreqHardware cpu = targetFrequency
  /-- Every other core runs as before. -/
  kept : ∀ cpu, cpu ∉ after.changed → after.getFreqHardware cpu = frequency cpu

/-- A core of the machine does not run at the target. -/
def Other (targetFrequency : Nat) (frequency : Nat → Nat) (core : Nat) : Prop :=
  core < initialTopo.numPhysicalCores ∧
    frequency (core * initialTopo.numHwThreads) ≠ targetFrequency

instance decidableOther (targetFrequency : Nat) (frequency : Nat → Nat) :
    DecidablePred (Other initialTopo targetFrequency frequency) :=
  fun _ => inferInstanceAs (Decidable (_ ∧ _))

/-- The cores that are set with a core, if it does not run at the target. -/
def range (core : Nat) : Finset Nat :=
  Finset.Ico core (min (core + (core * initialTopo.numHwThreads + 1)) initialTopo.numPhysicalCores)

variable {initialTopo} {numCpus targetFrequency : Nat} {frequency : Nat → Nat}

/-- What is in the range of a core. -/
theorem mem_range {core b : Nat} : b ∈ range initialTopo core ↔
    core ≤ b ∧ b < core + (core * initialTopo.numHwThreads + 1) ∧
      b < initialTopo.numPhysicalCores := by
  unfold range
  rw [Finset.mem_Ico, lt_min_iff]

/-- The ranges are intervals. -/
theorem cells_range : Cells (range initialTopo) (Other initialTopo targetFrequency frequency) where
  self_mem other := mem_range.mpr ⟨le_rfl, by omega, other.1⟩
  le_of_mem mem := (mem_range.mp mem).1
  convex mem first last := by
    obtain ⟨-, short, exist⟩ := mem_range.mp mem
    exact mem_range.mpr ⟨first, by omega, by omega⟩

/-! ## Loops over cores -/

/-- A loop over the first threads of consecutive cores. -/
theorem cpuIds_cores {step : Nat} (positive : 0 < step) (core count : Nat) :
    cpuIds (core * step) ((core + count) * step) step =
      (List.range' core count).map (· * step) := by
  have rounds : ((core + count) * step - core * step + step - 1) / step = count := by
    rw [Nat.add_mul, Nat.add_sub_cancel_left, Nat.add_sub_assoc positive, Nat.add_comm,
      Nat.add_mul_div_right _ _ positive, Nat.div_eq_of_lt (by omega), Nat.zero_add]
  unfold cpuIds
  rw [rounds]
  clear rounds
  induction count generalizing core with
  | zero => rfl
  | succ count ih =>
    have next : core * step + step = (core + 1) * step := (Nat.succ_mul core step).symm
    rw [List.range'_succ, List.range'_succ, List.map_cons, next, ih]

/-- Setting a core first is setting it with the others. -/
theorem setAll_setFrequency (cpufreq : CpuFreq) (cpu : Nat) (cpus : Finset Nat) :
    (cpufreq.setFrequency cpu targetFrequency).setAll cpus targetFrequency =
      cpufreq.setAll (insert cpu cpus) targetFrequency := by
  unfold CpuFreq.setAll CpuFreq.setFrequency
  refine CpuFreq.ext (funext fun other => ?_) (Finset.insert_union_comm ..)
  dsimp only
  rw [Function.update_apply]
  by_cases mem : other ∈ cpus
  · rw [if_pos mem, if_pos (Finset.mem_insert_of_mem mem)]
  · by_cases same : other = cpu
    · rw [if_neg mem, if_pos same, if_pos (same ▸ Finset.mem_insert_self cpu cpus)]
    · rw [if_neg mem, if_neg same, if_neg (by simp [same, mem])]

/-- The loop over the cores of a range sets those that exist. -/
theorem foldl_setFrequency (cpus : List Nat) (cpufreq : CpuFreq) :
    cpus.foldl (fun cpufreq cpuId =>
      if cpuId < initialTopo.numLogicalCores then cpufreq.setFrequency cpuId targetFrequency
      else cpufreq) cpufreq =
    cpufreq.setAll (cpus.filter (· < initialTopo.numLogicalCores)).toFinset targetFrequency := by
  induction cpus generalizing cpufreq with
  | nil => exact CpuFreq.ext rfl (Finset.union_empty _).symm
  | cons cpu cpus ih =>
    rw [List.foldl_cons, ih]
    by_cases exist : cpu < initialTopo.numLogicalCores
    · rw [if_pos exist, List.filter_cons_of_pos (by simpa using exist), List.toFinset_cons]
      exact setAll_setFrequency cpufreq cpu _
    · rw [if_neg exist, List.filter_cons_of_neg (by simpa using exist)]

variable (initialTopo) in
/-- The first threads of some cores. -/
def threads (cores : Finset Nat) : Finset Nat := cores.image (· * initialTopo.numHwThreads)

/-- Different cores have different first threads. -/
theorem injective_threads : Function.Injective (· * initialTopo.numHwThreads) :=
  fun _ _ same => Nat.eq_of_mul_eq_mul_right initialTopo.positive same

/-- The first thread of a core belongs to that core. -/
theorem mem_threads {cores : Finset Nat} {core : Nat} :
    core * initialTopo.numHwThreads ∈ threads initialTopo cores ↔ core ∈ cores :=
  injective_threads.mem_finset_image

/-- The first threads of all cores in the range of a core are set with it. -/
theorem setFrequency_core (core : Nat) (cpufreq : CpuFreq) :
    setFrequency initialTopo (core * initialTopo.numHwThreads)
        (core * initialTopo.numHwThreads + 1) targetFrequency cpufreq =
      cpufreq.setAll (threads initialTopo (range initialTopo core)) targetFrequency := by
  have last : core * initialTopo.numHwThreads +
      (core * initialTopo.numHwThreads + 1) * initialTopo.numHwThreads =
        (core + (core * initialTopo.numHwThreads + 1)) * initialTopo.numHwThreads :=
    (Nat.add_mul _ _ _).symm
  unfold setFrequency
  dsimp only
  rw [last, cpuIds_cores initialTopo.positive, foldl_setFrequency]
  congr 1
  ext cpu
  simp only [List.mem_toFinset, List.mem_filter, List.mem_map, List.mem_range'_1,
    decide_eq_true_eq, threads, Finset.mem_image, mem_range, initialTopo.multiple]
  constructor
  · rintro ⟨⟨b, ⟨first, short⟩, rfl⟩, exist⟩
    exact ⟨b, ⟨first, short, Nat.lt_of_mul_lt_mul_right exist⟩, rfl⟩
  · rintro ⟨b, ⟨first, short, exist⟩, rfl⟩
    exact ⟨⟨b, ⟨first, short⟩, rfl⟩, Nat.mul_lt_mul_of_pos_right exist initialTopo.positive⟩

/-! ## A bulk change -/

variable (initialTopo targetFrequency frequency) in
/-- The ranges of some cores have been set, one after the other. -/
structure Changed (picked : List Nat) (cpufreq : CpuFreq) : Prop where
  /-- Every one began with the first core that did not run at the target yet. -/
  picks : Picks (range initialTopo) (Other initialTopo targetFrequency frequency) picked
  /-- The first threads in these ranges are set. -/
  changed : cpufreq.changed = threads initialTopo (picked.toFinset.biUnion (range initialTopo))
  /-- Only their frequencies differ. -/
  getFreqHardware : ∀ cpu, cpufreq.getFreqHardware cpu =
    if cpu ∈ cpufreq.changed then targetFrequency else frequency cpu

variable {picked : List Nat} {cpufreq : CpuFreq} {core count : Nat}

/-- A core runs at the target if it has run there before or is in a range that has been set. -/
theorem Changed.eq_target_iff (changed : Changed initialTopo targetFrequency frequency picked
    cpufreq) : cpufreq.getFreqHardware (core * initialTopo.numHwThreads) = targetFrequency ↔
      (∃ p ∈ picked, core ∈ range initialTopo p) ∨
        frequency (core * initialTopo.numHwThreads) = targetFrequency := by
  have covered : core * initialTopo.numHwThreads ∈ cpufreq.changed ↔
      ∃ p ∈ picked, core ∈ range initialTopo p := by
    rw [changed.changed, mem_threads, Finset.mem_biUnion]
    simp only [List.mem_toFinset]
  rw [changed.getFreqHardware, ← covered]
  split
  · rename_i inside
    exact iff_of_true rfl (Or.inl inside)
  · rename_i outside
    exact (or_iff_right outside).symm

/-- The range of the first core that does not run at the target is set next. -/
theorem Changed.setFrequency (changed : Changed initialTopo targetFrequency frequency picked
    cpufreq) (exist : core < initialTopo.numPhysicalCores)
    (other : cpufreq.getFreqHardware (core * initialTopo.numHwThreads) ≠ targetFrequency)
    (covered : ∀ b < core, Other initialTopo targetFrequency frequency b →
      ∃ p ∈ picked, b ∈ range initialTopo p) :
    Changed initialTopo targetFrequency frequency (picked ++ [core])
      (setFrequency initialTopo (core * initialTopo.numHwThreads)
        (core * initialTopo.numHwThreads + 1) targetFrequency cpufreq) := by
  rw [ne_eq, changed.eq_target_iff, not_or, not_exists] at other
  rw [setFrequency_core]
  refine ⟨?_, ?_, fun cpu => ?_⟩
  · exact changed.picks.pick ⟨exist, other.2⟩ (fun p mem inside => other.1 p ⟨mem, inside⟩) covered
  · show cpufreq.changed ∪ _ = _
    rw [changed.changed, List.toFinset_append, Finset.union_biUnion, List.toFinset_cons,
      List.toFinset_nil, insert_empty_eq, Finset.singleton_biUnion]
    exact (Finset.image_union _ _).symm
  · show (if _ then _ else cpufreq.getFreqHardware cpu) = if _ ∈ cpufreq.changed ∪ _ then _ else _
    rw [changed.getFreqHardware]
    by_cases inside : cpu ∈ threads initialTopo (range initialTopo core)
    · rw [if_pos inside, if_pos (Finset.mem_union_right _ inside)]
    · rw [if_neg inside]
      simp only [Finset.mem_union, inside, or_false]

/-- From a core on ranges are set until there are as many as demanded or all cores run at the
target. -/
theorem Changed.setFrequenciesFrom (rest : Nat)
    (changed : Changed initialTopo targetFrequency frequency picked cpufreq)
    (whole : core + rest = initialTopo.numPhysicalCores) (few : picked.length ≤ numCpus)
    (covered : ∀ b < core, Other initialTopo targetFrequency frequency b →
      ∃ p ∈ picked, b ∈ range initialTopo p) :
    ∃ picked', Changed initialTopo targetFrequency frequency picked'
      (setFrequenciesFrom initialTopo numCpus targetFrequency
        ((List.range' core rest).map (· * initialTopo.numHwThreads)) picked.length cpufreq) ∧
      picked'.length ≤ numCpus ∧ (picked'.length = numCpus ∨
        ∀ b, Other initialTopo targetFrequency frequency b →
          ∃ p ∈ picked', b ∈ range initialTopo p) := by
  induction rest generalizing core picked cpufreq with
  | zero =>
    refine ⟨picked, changed, few, Or.inr fun b other => covered b ?_ other⟩
    have exist := other.1
    omega
  | succ rest ih =>
    have whole' : core + 1 + rest = initialTopo.numPhysicalCores := by omega
    rw [List.range'_succ, List.map_cons, setFrequenciesFrom]
    split
    · rename_i other
      split
      · rename_i enough
        exact ⟨picked, changed, few, Or.inl enough⟩
      · rename_i more
        have next := changed.setFrequency (by omega) other covered
        have counted : picked.length + 1 = (picked ++ [core]).length := by simp
        rw [counted]
        refine ih next whole' (by omega) fun b less own => ?_
        by_cases last : b = core
        · rw [last]
          exact ⟨core, by simp, cells_range.self_mem (last ▸ own)⟩
        · obtain ⟨p, mem, inside⟩ := covered b (by omega) own
          exact ⟨p, List.mem_append_left _ mem, inside⟩
    · rename_i reached
      refine ih changed whole' few fun b less own => ?_
      by_cases last : b = core
      · rw [last]
        have target := changed.eq_target_iff.mp (not_not.mp reached)
        exact target.resolve_right (last ▸ own.2)
      · exact covered b (by omega) own

variable (initialTopo numCpus targetFrequency frequency) in
/-- A bulk change sets ranges until there are as many as demanded or all cores run at the target. -/
theorem setFrequenciesBulk_changed :
    ∃ picked, Changed initialTopo targetFrequency frequency picked
      (setFrequenciesBulk initialTopo numCpus targetFrequency ⟨frequency, ∅⟩) ∧
      picked.length ≤ numCpus ∧ (picked.length = numCpus ∨
        ∀ b, Other initialTopo targetFrequency frequency b →
          ∃ p ∈ picked, b ∈ range initialTopo p) := by
  have start : Changed initialTopo targetFrequency frequency [] ⟨frequency, ∅⟩ :=
    ⟨.nil, rfl, fun cpu => (if_neg (Finset.notMem_empty cpu)).symm⟩
  have loop := cpuIds_cores initialTopo.positive 0 initialTopo.numPhysicalCores
  rw [Nat.zero_mul, Nat.zero_add, ← initialTopo.multiple] at loop
  unfold setFrequenciesBulk
  rw [loop]
  exact start.setFrequenciesFrom _ (Nat.zero_add _) (Nat.zero_le _)
    fun b less => absurd less (Nat.not_lt_zero b)

/-- A bulk change is bounded if the ranges have no more cores than demanded, all of which did not
run at the target. -/
theorem Changed.bounded_iff (changed : Changed initialTopo targetFrequency frequency picked
    cpufreq) : Bounded initialTopo numCpus targetFrequency frequency cpufreq ↔
      (picked.toFinset.biUnion (range initialTopo)).card ≤ numCpus ∧
        ∀ p ∈ picked, ∀ b ∈ range initialTopo p, Other initialTopo targetFrequency frequency b := by
  have count : cpufreq.changed.card = (picked.toFinset.biUnion (range initialTopo)).card := by
    rw [changed.changed]
    exact Finset.card_image_of_injective _ injective_threads
  have covered : ∀ b, b * initialTopo.numHwThreads ∈ cpufreq.changed ↔
      ∃ p ∈ picked, b ∈ range initialTopo p := by
    intro b
    rw [changed.changed, mem_threads, Finset.mem_biUnion]
    simp only [List.mem_toFinset]
  have first : ∀ cpu ∈ cpufreq.changed, ∃ b, b * initialTopo.numHwThreads = cpu ∧
      ∃ p ∈ picked, b ∈ range initialTopo p := by
    intro cpu mem
    have image := mem
    rw [changed.changed] at image
    obtain ⟨b, -, rfl⟩ := Finset.mem_image.mp image
    exact ⟨b, rfl, (covered b).mp mem⟩
  constructor
  · intro bounded
    refine ⟨count ▸ bounded.few, fun p mem b inside => ⟨(mem_range.mp inside).2.2, ?_⟩⟩
    exact bounded.other _ ((covered b).mpr ⟨p, mem, inside⟩)
  · rintro ⟨few, inside⟩
    refine ⟨count ▸ few, fun cpu mem => ?_, fun cpu mem => ?_, fun cpu mem => ?_,
      fun cpu outside => ?_⟩
    · obtain ⟨b, rfl, p, memP, inP⟩ := first cpu mem
      rw [initialTopo.multiple]
      exact Nat.mul_lt_mul_of_pos_right (mem_range.mp inP).2.2 initialTopo.positive
    · obtain ⟨b, rfl, p, memP, inP⟩ := first cpu mem
      exact (inside p memP b inP).2
    · rw [changed.getFreqHardware, if_pos mem]
    · rw [changed.getFreqHardware, if_neg outside]

variable (initialTopo targetFrequency frequency) in
/-- The cores that do not run at the target. -/
def others : Finset Nat :=
  (Finset.range initialTopo.numPhysicalCores).filter (Other initialTopo targetFrequency frequency)

variable (initialTopo numCpus targetFrequency frequency) in
/-- A bulk change is demanded for no core, or for a single one when the first core does not run at
the target, or for at least all cores that do not run at the target, which are divided into
ranges. -/
def Divided : Prop :=
  numCpus = 0 ∨ numCpus = 1 ∧ Other initialTopo targetFrequency frequency 0 ∨
    (others initialTopo targetFrequency frequency).card ≤ numCpus ∧ ∃ tiles,
      Tiling (range initialTopo) (Other initialTopo targetFrequency frequency) tiles

/-- The cores that do not run at the target are cores of the machine. -/
theorem mem_others : core ∈ others initialTopo targetFrequency frequency ↔
    Other initialTopo targetFrequency frequency core := by
  unfold others
  rw [Finset.mem_filter, Finset.mem_range]
  exact and_iff_right_of_imp And.left

/-- Only the range of the first and that of the last core consist of that core alone. -/
theorem eq_of_card_range (exist : core < initialTopo.numPhysicalCores)
    (single : (range initialTopo core).card = 1) :
    core = 0 ∨ core + 1 = initialTopo.numPhysicalCores := by
  by_contra inner
  have more : 1 ≤ core * initialTopo.numHwThreads :=
    Nat.mul_pos (by omega) initialTopo.positive
  unfold range at single
  rw [Nat.card_Ico] at single
  omega

/-- If the ranges have no more cores than there are ranges, all cores that did not run at the target
are covered, or there is none but that of the first core. -/
theorem Changed.covered_or_first
    (changed : Changed initialTopo targetFrequency frequency picked cpufreq)
    (few : (picked.toFinset.biUnion (range initialTopo)).card ≤ picked.length) :
    (∀ b, Other initialTopo targetFrequency frequency b →
      ∃ p ∈ picked, b ∈ range initialTopo p) ∨ picked = [] ∨ picked = [0] := by
  by_cases final : ∃ p ∈ picked, p + 1 = initialTopo.numPhysicalCores
  · -- the scan for the last core has gone past all others
    obtain ⟨p, mem, last⟩ := final
    have own := changed.picks.wanted_of_mem mem
    refine Or.inl fun b other => ?_
    by_cases same : b = p
    · rw [same]
      exact ⟨p, mem, cells_range.self_mem own⟩
    · have exist := other.1
      exact changed.picks.covered_of_lt mem (by omega) other
  · right
    have zero : ∀ p ∈ picked, p = 0 := by
      intro p mem
      have own := changed.picks.wanted_of_mem mem
      have single := changed.picks.card_eq_one cells_range few mem
      exact (eq_of_card_range own.1 single).resolve_right fun last => final ⟨p, mem, last⟩
    have distinct := changed.picks.nodup cells_range
    rw [List.eq_replicate_of_mem zero, List.nodup_replicate] at distinct
    rcases Nat.le_one_iff_eq_zero_or_eq_one.mp distinct with none | one
    · exact Or.inl (List.eq_nil_of_length_eq_zero none)
    · have single := List.eq_replicate_of_mem zero
      rw [one] at single
      exact Or.inr single

/-- If the ranges have no more cores than demanded, all of which did not run at the target, either
all such cores are covered, or only the range of the first core is set. -/
theorem Changed.divided (changed : Changed initialTopo targetFrequency frequency picked cpufreq)
    (last : picked.length = numCpus ∨ ∀ b, Other initialTopo targetFrequency frequency b →
      ∃ p ∈ picked, b ∈ range initialTopo p)
    (few : (picked.toFinset.biUnion (range initialTopo)).card ≤ numCpus)
    (inside : ∀ p ∈ picked, ∀ b ∈ range initialTopo p,
      Other initialTopo targetFrequency frequency b) :
    Divided initialTopo numCpus targetFrequency frequency := by
  by_cases covered : ∀ b, Other initialTopo targetFrequency frequency b →
      ∃ p ∈ picked, b ∈ range initialTopo p
  · refine Or.inr (Or.inr ⟨le_trans (Finset.card_le_card fun b mem => ?_) few, _,
      changed.picks.tiling cells_range covered inside⟩)
    obtain ⟨p, memP, inP⟩ := covered b (mem_others.mp mem)
    exact Finset.mem_biUnion.mpr ⟨p, List.mem_toFinset.mpr memP, inP⟩
  · have full : picked.length = numCpus := last.resolve_right covered
    rcases changed.covered_or_first (full ▸ few) with all | rfl | rfl
    · exact absurd all covered
    · exact Or.inl full.symm
    · exact Or.inr (Or.inl ⟨full.symm, changed.picks.wanted_of_mem List.mem_cons_self⟩)

/-- Where the cores are divided, the ranges have no more of them than demanded, all of which did not
run at the target. -/
theorem Changed.inside_of_divided
    (changed : Changed initialTopo targetFrequency frequency picked cpufreq)
    (bound : picked.length ≤ numCpus)
    (divided : Divided initialTopo numCpus targetFrequency frequency) :
    (picked.toFinset.biUnion (range initialTopo)).card ≤ numCpus ∧
      ∀ p ∈ picked, ∀ b ∈ range initialTopo p,
        Other initialTopo targetFrequency frequency b := by
  rcases divided with none | ⟨one, first⟩ | ⟨few, tiles, tiling⟩
  · have empty : picked = [] := List.eq_nil_of_length_eq_zero (by omega)
    subst empty
    exact ⟨Nat.zero_le _, fun p mem => absurd mem List.not_mem_nil⟩
  · cases picked with
    | nil => exact ⟨Nat.zero_le _, fun p mem => absurd mem List.not_mem_nil⟩
    | cons p picked =>
      have empty : picked = [] := List.eq_nil_of_length_eq_zero (by
        rw [List.length_cons] at bound
        omega)
      subst empty
      have head : p = 0 := by
        by_contra later
        obtain ⟨q, mem, inside⟩ := changed.picks.covered_of_lt List.mem_cons_self
          (Nat.pos_of_ne_zero later) first
        rw [List.mem_singleton.mp mem] at inside
        exact later (Nat.le_zero.mp (mem_range.mp inside).1)
      have alone : ∀ b ∈ range initialTopo 0, b = 0 := by
        intro b mem
        have short := (mem_range.mp mem).2.1
        omega
      rw [head]
      refine ⟨?_, fun q mem b inside => ?_⟩
      · refine le_trans (Finset.card_le_card (t := {0}) fun b mem => ?_) one.ge
        obtain ⟨q, memQ, inQ⟩ := Finset.mem_biUnion.mp mem
        rw [List.mem_singleton.mp (List.mem_toFinset.mp memQ)] at inQ
        exact Finset.mem_singleton.mpr (alone b inQ)
      · rw [List.mem_singleton.mp mem] at inside
        rw [alone b inside]
        exact first
  · have inside : ∀ p ∈ picked, ∀ b ∈ range initialTopo p,
        Other initialTopo targetFrequency frequency b := fun p mem =>
      tiling.inside p (changed.picks.mem_tiles cells_range tiling mem)
    refine ⟨le_trans (Finset.card_le_card fun b mem => ?_) few, inside⟩
    obtain ⟨p, memP, inP⟩ := Finset.mem_biUnion.mp mem
    exact mem_others.mpr (inside p (List.mem_toFinset.mp memP) b inP)

/-- A bulk change is bounded if and only if it is demanded for no core, or for a single one when the
first core does not run at the target, or for at least all cores that do not run at the target,
which are divided into ranges. -/
theorem setFrequenciesBulk_bounded_iff (initialTopo : HwTopology) (numCpus targetFrequency : Nat)
    (frequency : Nat → Nat) :
    Bounded initialTopo numCpus targetFrequency frequency
      (setFrequenciesBulk initialTopo numCpus targetFrequency ⟨frequency, ∅⟩) ↔
      Divided initialTopo numCpus targetFrequency frequency := by
  obtain ⟨picked, changed, bound, last⟩ :=
    setFrequenciesBulk_changed initialTopo numCpus targetFrequency frequency
  rw [changed.bounded_iff]
  constructor
  · rintro ⟨few, inside⟩
    exact changed.divided last few inside
  · exact changed.inside_of_divided bound

/-- Of four cores the first runs at the target; two others are set when one is demanded. -/
theorem not_bounded :
    ¬ Bounded ⟨4, 4, 1, by decide, rfl⟩ 1 2 (fun cpu => if cpu = 0 then 2 else 1)
      (setFrequenciesBulk ⟨4, 4, 1, by decide, rfl⟩ 1 2
        ⟨fun cpu => if cpu = 0 then 2 else 1, ∅⟩) :=
  fun bounded => absurd bounded.few (by decide)

end HardwareReconf

end AllScale
