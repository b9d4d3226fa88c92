import AllScale.Lib.Writes
import AllScale.Optimizer.Constraints
import AllScale.Optimizer.Objectives
import AllScale.Optimizer.SecondWorst

/-!
# The local optimizer

The scheduler measures the objectives while the program runs and calls `step` from time to time.
The optimizer proposes a number of threads and a frequency; it brings one objective after the other
to its minimum, in the order of their priorities, and gives up an objective as soon as one with a
higher priority leaves its leeway.
-/

namespace AllScale

open Transition NelderMead Double Writes

/-- `searchPolicy`. -/
inductive SearchPolicy where
  | allscale
  | random
  | manual
  deriving DecidableEq

/-- `actuation`. -/
structure Actuation where
  /-- `delta_threads`. -/
  deltaThreads : Nat
  /-- `frequency_idx`. -/
  frequencyIdx : Nat
  deriving DecidableEq

/-- `localoptimizer`. -/
structure LocalOptimizer (F : Type) where
  /-- `objectives_`. -/
  objectives : List (Objective F)
  nmd : NelderMead F
  /-- `param_changes_`. -/
  paramChanges : Nat
  /-- `optmethod_`. -/
  optMethod : SearchPolicy
  /-- `threads_param_`. -/
  threadsParam : Nat
  /-- `max_threads_`. -/
  maxThreads : Nat
  /-- `frequency_param_`. -/
  frequencyParam : Nat
  /-- `frequencies_param_allowed_`. -/
  frequenciesParamAllowed : List Nat
  /-- `current_objective_idx_`. -/
  currentObjectiveIdx : Nat
  /-- `steps_`. -/
  steps : Nat
  /-- `converged_`. -/
  converged : Bool

/-- The conversion of an integer to `unsigned int`. -/
def toUnsigned (i : Int) : Nat := (i % 2 ^ 32).toNat

/-- `rand() % n`; there is no result for zero. -/
def randMod (draw n : Nat) : Option Nat := if n = 0 then none else some (draw % n)

/-- `insert` at the begin of a vector of samples, and `resize` when there are too many. -/
def addSample {α : Type} (samples : List α) (sample : α) : List α :=
  if (sample :: samples).length > 1000 then (sample :: samples).take 500 else sample :: samples

section Model

variable {F : Type} [Double F]

namespace Objective

/-- The body of the loop in `measureObjective`, with the value for the type of the objective. -/
def measure (self : Objective F) (value threads freq : F) (paramChanges : Nat) : Objective F :=
  { self with
    samples := addSample self.samples value
    threadsSamples := addSample self.threadsSamples threads
    freqSamples := addSample self.freqSamples freq
    globalMin := if value < self.globalMin then value else self.globalMin
    minParamsIdx := if value < self.globalMin then paramChanges else self.minParamsIdx
    globalMax := if self.globalMax < value then value else self.globalMax }

/-- The point and the value that are so many samples before the end; there is no result before the
begin. -/
def sampleFromEnd (self : Objective F) (n : Nat) : Option (Point F × F) := do
  let k ← if n ≤ self.samples.length then some (self.samples.length - n) else none
  let threads ← self.threadsSamples[k]?
  let freq ← self.freqSamples[k]?
  let value ← self.samples[k]?
  return (![threads, freq], value)

/-- What is stored when the search for an objective ends. -/
def finish (self : Objective F) (nmd : NelderMead F) : Objective F :=
  { self with
    converged := true
    convergedMinimum := nmd.min
    minimizationParams := nmd.v nmd.vs }

/-- `max_leeway_value`. -/
def maxLeewayValue (self : Objective F) : F :=
  self.convergedMinimum + self.leeway * (self.globalMax - self.convergedMinimum)

end Objective

namespace LocalOptimizer

/-- `warmup_steps_`. -/
def warmupSteps : Nat := 3

/-- `setobjectives`, `setmaxthreads`, `reset` and `setfrequencies`, as `init` calls them. -/
def create (memory : NelderMead F) (optMethod : SearchPolicy)
    (targetObjectives : List (ObjectiveTarget F)) (osThreads : Nat) (frequencies : List Nat) :
    Option (LocalOptimizer F) := do
  let objectives ← setObjectives targetObjectives
  return {
    objectives
    nmd := .create memory (literal (1 / 100))
    paramChanges := 0
    optMethod
    threadsParam := osThreads
    maxThreads := osThreads
    frequencyParam := 0
    frequenciesParamAllowed := frequencies
    currentObjectiveIdx := 0
    steps := 0
    converged := false }

/-- `measureObjective`. -/
def measureObjective (self : LocalOptimizer F) (iterTime power threads : F) : LocalOptimizer F :=
  let value (el : Objective F) : F :=
    match el.type with
    | .time => iterTime
    | .energy => power
    | .resource => threads
  { self with objectives := self.objectives.map fun el =>
      el.measure (value el) threads (literal self.frequencyParam) self.paramChanges }

/-- The initialisation of the simplex search for the current objective. The accesses behind the
arrays of the margins are left out. -/
def initializeObjective (self : LocalOptimizer F) (obj : Objective F) :
    Option (LocalOptimizer F) := do
  let (first, firstValue) ← obj.sampleFromEnd 1
  let (second, secondValue) ← obj.sampleFromEnd 2
  let (third, thirdValue) ← obj.sampleFromEnd 3
  return { self with
    nmd := self.nmd.initializeSimplex ![first, second, third]
      ![firstValue, secondValue, thirdValue] localMin
      (localMax self.maxThreads self.frequenciesParamAllowed)
    objectives := self.objectives.set self.currentObjectiveIdx { obj with initialized := true } }

/-- The search for the current objective, initialised if it is not. -/
def prepare (self : LocalOptimizer F) (obj : Objective F) : Option (LocalOptimizer F) :=
  if obj.initialized then some self else self.initializeObjective obj

/-- The end of the search for the current objective. -/
def finishObjective (self : LocalOptimizer F) : LocalOptimizer F :=
  { self with
    objectives := self.objectives.modify self.currentObjectiveIdx (·.finish self.nmd)
    currentObjectiveIdx := self.currentObjectiveIdx + 1
    converged := self.converged || self.currentObjectiveIdx + 1 == self.objectives.length }

/-- The first of some objectives that has left its leeway in its last two samples. -/
def outOfLeeway : List (Objective F) → Option (Option (Objective F))
  | [] => some none
  | priorityObj :: rest => do
    let last ← priorityObj.samples[0]?
    if priorityObj.maxLeewayValue < last then
      let previous ← priorityObj.samples[1]?
      if priorityObj.maxLeewayValue < previous then some (some priorityObj) else outOfLeeway rest
    else outOfLeeway rest

/-- The conversion of a parameter to `unsigned int`. -/
def toParam (x : F) : Nat := toUnsigned (toInt x)

/-- The number of threads and the frequency of a point, each converted. -/
def pointActuation (convert : F → Nat) (x : Point F) : Actuation :=
  ⟨convert (Matrix.vecHead x), convert (Matrix.vecHead (Matrix.vecTail x))⟩

/-- What is proposed when an objective has left its leeway. -/
def leewayActuation (priorityObj : Objective F) : Actuation :=
  let scale (x : F) : Nat := toParam
    (literal (toInt x) * (priorityObj.maxLeewayValue / priorityObj.convergedMinimum))
  pointActuation scale priorityObj.minimizationParams

/-- The step of the simplex search for the current objective, and what follows from it. -/
def search (self : LocalOptimizer F) (obj : Objective F) :
    Option (Actuation × LocalOptimizer F) := do
  let last ← obj.samples[0]?
  let (res, nmd) := self.nmd.step last
  let self := { self with nmd }
  if res.converged then
    return (pointActuation toParam (nmd.v nmd.vs), self.finishObjective)
  else
    match ← outOfLeeway (self.objectives.take self.currentObjectiveIdx) with
    | some priorityObj => return (leewayActuation priorityObj, self.finishObjective)
    | none =>
      let unchanged := res.threads ≤ literal 0 ∧ literal 0 ≤ res.threads
      return (⟨if unchanged then self.threadsParam else toParam res.threads,
        toUnsigned res.freqIdx⟩, self)

/-- The branch of `step` for the policy `random`. -/
def stepRandom (self : LocalOptimizer F) (draws : Nat × Nat) :
    Option (Actuation × LocalOptimizer F) := do
  let threads ← randMod draws.1 self.maxThreads
  let frequency ← randMod draws.2 self.frequenciesParamAllowed.length
  return (⟨toUnsigned (threads - self.threadsParam),
    if frequency = self.frequencyParam then toUnsigned (-1) else frequency⟩, self)

/-- The branch of `step` for the policy `allscale`. -/
def stepAllscale (self : LocalOptimizer F) (draws : Nat × Nat) :
    Option (Actuation × LocalOptimizer F) := do
  if self.currentObjectiveIdx > self.objectives.length then
    return (⟨self.threadsParam, self.frequencyParam⟩, self)
  else if self.steps < warmupSteps then
    let threads ← randMod draws.1 self.maxThreads
    let frequency ← randMod draws.2 self.frequenciesParamAllowed.length
    return (⟨threads, frequency⟩, self)
  else
    let obj ← self.objectives[self.currentObjectiveIdx]?
    let self ← self.prepare obj
    self.search obj

/-- `step`, with two results of `rand`. There is no result when it reads outside of a vector. -/
def step (self : LocalOptimizer F) (draws : Nat × Nat) : Option (Actuation × LocalOptimizer F) :=
  let self := { self with steps := self.steps + 1 }
  match self.optMethod with
  | .random => self.stepRandom draws
  | .manual => some (⟨self.threadsParam, self.frequencyParam⟩, self)
  | .allscale => self.stepAllscale draws

/-- What `optimize_locally` does to the optimizer. -/
inductive Action (F : Type) where
  /-- A measurement, with the average time of an iteration and the average power. -/
  | measure (iterTime power : F) (activeThreads : Nat)
  /-- A step, and what is set after it. -/
  | step (draws : Nat × Nat) (activeThreads : Nat)

/-- What `optimize_locally` sets after a step. -/
def actuate (self : LocalOptimizer F) (act : Actuation) (activeThreads : Nat) : LocalOptimizer F :=
  if act.deltaThreads < activeThreads then { self with threadsParam := activeThreads }
  else if act.deltaThreads > activeThreads then { self with frequencyParam := act.frequencyIdx }
  else self

/-- One action of `optimize_locally`, which does nothing once the optimizer has converged. -/
def optimizeLocally (self : LocalOptimizer F) (action : Action F) : Option (LocalOptimizer F) :=
  if self.converged then none
  else
    match action with
    | .measure iterTime power activeThreads =>
      some (self.measureObjective iterTime power (literal activeThreads))
    | .step draws activeThreads => do
      let (act, self) ← self.step draws
      return self.actuate act activeThreads

/-- The runs of the local optimizer of a locality. -/
def optimizing (start : LocalOptimizer F) : System (LocalOptimizer F) (Action F) where
  start := start
  step := fun self action self' => self.optimizeLocally action = some self'

end LocalOptimizer

/-! ## Samples -/

/-- A sample that is added is the first one, and some of the others stay. -/
theorem mem_addSample {α : Type} {samples : List α} {sample x : α}
    (found : x ∈ addSample samples sample) : x = sample ∨ x ∈ samples := by
  unfold addSample at found
  split at found
  · exact List.mem_cons.mp (List.mem_of_mem_take found)
  · exact List.mem_cons.mp found

/-- The number of samples after one is added. -/
theorem length_addSample {α : Type} (samples : List α) (sample : α) :
    (addSample samples sample).length =
      if samples.length + 1 > 1000 then 500 else samples.length + 1 := by
  unfold addSample
  rw [List.length_cons]
  split
  · rw [List.length_take, List.length_cons]
    omega
  · rw [List.length_cons]

namespace Objective

/-- What holds of the samples of an objective after so many measurements. -/
structure Sampled (count : Nat) (o : Objective F) : Prop where
  /-- There is a number of threads for each sample. -/
  threads : o.threadsSamples.length = o.samples.length
  /-- There is a frequency for each sample. -/
  freqs : o.freqSamples.length = o.samples.length
  /-- There are not too many. -/
  most : o.samples.length ≤ 1000
  /-- There are no more than have been measured. -/
  measured : o.samples.length ≤ count
  /-- At least the latest ones are kept. -/
  least : min count 500 ≤ o.samples.length
  /-- No sample is below the minimum. -/
  low : ∀ x ∈ o.samples, ¬ x < o.globalMin
  /-- No sample is above the maximum. -/
  high : ∀ x ∈ o.samples, ¬ o.globalMax < x

variable {o : Objective F} {count : Nat}

/-- There are no samples before the first measurement. -/
theorem sampled_nil (samples : o.samples = []) (threads : o.threadsSamples = [])
    (freqs : o.freqSamples = []) : o.Sampled 0 := by
  constructor <;> simp [samples, threads, freqs]

/-- A measurement adds a sample to each of the vectors. -/
theorem sampled_measure [IsStrictOrder F (· < ·)] (sampled : o.Sampled count)
    (value threads freq : F) (paramChanges : Nat) :
    (o.measure value threads freq paramChanges).Sampled (count + 1) := by
  have most := sampled.most
  have measured := sampled.measured
  have least := sampled.least
  refine ⟨?_, ?_, ?_, ?_, ?_, fun x found => ?_, fun x found => ?_⟩
  · simp only [measure, length_addSample, sampled.threads]
  · simp only [measure, length_addSample, sampled.freqs]
  · simp only [measure, length_addSample]
    split <;> omega
  · simp only [measure, length_addSample]
    split <;> omega
  · simp only [measure, length_addSample]
    split <;> omega
  · simp only [measure] at found ⊢
    split
    · rename_i less
      rcases mem_addSample found with rfl | found
      · exact irrefl x
      · exact fun below => sampled.low x found (trans_of (· < ·) below less)
    · rcases mem_addSample found with rfl | found
      · assumption
      · exact sampled.low x found
  · simp only [measure] at found ⊢
    split
    · rename_i greater
      rcases mem_addSample found with rfl | found
      · exact irrefl x
      · exact fun above => sampled.high x found (trans_of (· < ·) greater above)
    · rcases mem_addSample found with rfl | found
      · assumption
      · exact sampled.high x found

/-- A sample can be read from the end when there are so many. -/
theorem sampleFromEnd_isSome (sampled : o.Sampled count) {n : Nat} (positive : 0 < n) :
    (o.sampleFromEnd n).isSome ↔ n ≤ o.samples.length := by
  have threads := sampled.threads
  have freqs := sampled.freqs
  unfold sampleFromEnd
  by_cases enough : n ≤ o.samples.length
  · have inside : o.samples.length - n < o.samples.length := by omega
    simp [enough, threads, freqs, inside]
  · simp [enough]

end Objective

/-! ## What a step does -/

namespace LocalOptimizer

variable {self self' : LocalOptimizer F} {draws : Nat × Nat} {act : Actuation}

/-- A draw has a result when there is something to draw from. -/
theorem randMod_eq {n : Nat} (positive : n ≠ 0) (draw : Nat) : randMod draw n = some (draw % n) :=
  if_neg positive

/-- What `step` leaves as it is. -/
structure Keeps (opt opt' : LocalOptimizer F) : Prop where
  optMethod : opt'.optMethod = opt.optMethod
  maxThreads : opt'.maxThreads = opt.maxThreads
  frequencies : opt'.frequenciesParamAllowed = opt.frequenciesParamAllowed

/-- What `step` does with the policy `allscale`. -/
inductive StepChange (self self' : LocalOptimizer F) : Prop
  /-- In the first steps, the samples are left to come. -/
  | warmUp : self.steps + 1 < warmupSteps → self'.objectives = self.objectives →
      self'.currentObjectiveIdx = self.currentObjectiveIdx →
      self'.converged = self.converged → StepChange self self'
  /-- The search for the current objective goes on. -/
  | search {obj : Objective F} : self.objectives[self.currentObjectiveIdx]? = some obj →
      (obj.initialized ∨ 3 ≤ obj.samples.length) →
      self'.objectives =
        self.objectives.set self.currentObjectiveIdx { obj with initialized := true } →
      self'.currentObjectiveIdx = self.currentObjectiveIdx →
      self'.converged = self.converged → StepChange self self'
  /-- The search for the current objective ends. -/
  | finish {obj : Objective F} {nmd : NelderMead F} :
      self.objectives[self.currentObjectiveIdx]? = some obj →
      (obj.initialized ∨ 3 ≤ obj.samples.length) →
      self'.objectives = self.objectives.set self.currentObjectiveIdx
        ({ obj with initialized := true }.finish nmd) →
      self'.currentObjectiveIdx = self.currentObjectiveIdx + 1 →
      self'.converged =
        (self.converged || self.currentObjectiveIdx + 1 == self.objectives.length) →
      StepChange self self'

/-- The initialisation reads three samples from the end, and changes the search. -/
theorem initializeObjective_eq_some {obj : Objective F}
    (initialized : self.initializeObjective obj = some self') :
    (∀ n ∈ [1, 2, 3], (obj.sampleFromEnd n).isSome) ∧ ∃ nmd, self' = { self with
      nmd
      objectives :=
        self.objectives.set self.currentObjectiveIdx { obj with initialized := true } } := by
  simp only [initializeObjective, Option.bind_eq_bind, Option.bind_eq_some_iff] at initialized
  obtain ⟨⟨first, firstValue⟩, one, ⟨second, secondValue⟩, two, ⟨third, thirdValue⟩, three, same⟩ :=
    initialized
  cases same
  exact ⟨by simp [one, two, three], _, rfl⟩

/-- The search for an objective goes on or ends. -/
theorem search_eq_some {obj : Objective F} (searched : self.search obj = some (act, self')) :
    ∃ nmd, self' = { self with nmd } ∨ self' = { self with nmd }.finishObjective := by
  simp only [search, Option.bind_eq_bind, Option.bind_eq_some_iff] at searched
  obtain ⟨last, -, searched⟩ := searched
  split at searched
  · cases searched
    exact ⟨_, .inr rfl⟩
  · simp only [Option.bind_eq_some_iff] at searched
    obtain ⟨out, -, searched⟩ := searched
    split at searched
    · cases searched
      exact ⟨_, .inr rfl⟩
    · cases searched
      exact ⟨_, .inl rfl⟩

omit [Double F] in
/-- A sample that is read from the end is there. -/
theorem le_of_sampleFromEnd {obj : Objective F} {n : Nat} (read : (obj.sampleFromEnd n).isSome) :
    n ≤ obj.samples.length := by
  by_contra less
  rw [Objective.sampleFromEnd, if_neg less] at read
  cases read

/-- What happens to an objective before the search for it goes on. -/
theorem prepare_eq_some {obj : Objective F}
    (found : self.objectives[self.currentObjectiveIdx]? = some obj)
    (prepared : self.prepare obj = some self') :
    (obj.initialized ∨ 3 ≤ obj.samples.length) ∧ ∃ nmd, self' = { self with
      nmd
      objectives :=
        self.objectives.set self.currentObjectiveIdx { obj with initialized := true } } := by
  unfold prepare at prepared
  split at prepared
  · rename_i initialized
    cases prepared
    have same : { obj with initialized := true } = obj := by
      rw [← initialized]
    refine ⟨.inl initialized, self.nmd, ?_⟩
    rw [same, set_eq_self found]
  · obtain ⟨read, changed⟩ := initializeObjective_eq_some prepared
    exact ⟨.inr (le_of_sampleFromEnd (read 3 (by simp))), changed⟩

/-- A step under the policy `allscale`. -/
theorem step_eq (policy : self.optMethod = .allscale) (draws : Nat × Nat) :
    self.step draws = { self with steps := self.steps + 1 }.stepAllscale draws := by
  obtain ⟨objectives, nmd, paramChanges, optMethod, threadsParam, maxThreads, frequencyParam,
    frequencies, currentObjectiveIdx, steps, converged⟩ := self
  cases policy
  rfl

/-- What the branch for the policy `allscale` does while there is a current objective. -/
theorem stepAllscale_cases (inside : self.currentObjectiveIdx < self.objectives.length)
    (taken : { self with steps := self.steps + 1 }.stepAllscale draws = some (act, self')) :
    Keeps self self' ∧ self'.steps = self.steps + 1 ∧ StepChange self self' := by
  unfold stepAllscale at taken
  rw [if_neg (Nat.not_lt.mpr inside.le)] at taken
  split at taken
  · rename_i early
    simp only [Option.bind_eq_bind, Option.bind_eq_some_iff] at taken
    obtain ⟨threads, -, frequency, -, same⟩ := taken
    cases same
    exact ⟨⟨rfl, rfl, rfl⟩, rfl, .warmUp early rfl rfl rfl⟩
  · simp only [Option.bind_eq_bind, Option.bind_eq_some_iff] at taken
    obtain ⟨obj, found, prepared, prepares, searched⟩ := taken
    have before : { self with steps := self.steps + 1 }.objectives[
        { self with steps := self.steps + 1 }.currentObjectiveIdx]? = some obj := found
    obtain ⟨ready, nmd, same⟩ := prepare_eq_some before prepares
    subst same
    obtain ⟨nmd', same | same⟩ := search_eq_some searched
    · subst same
      exact ⟨⟨rfl, rfl, rfl⟩, rfl, .search found ready rfl rfl rfl⟩
    · subst same
      refine ⟨⟨rfl, rfl, rfl⟩, rfl, .finish found ready (modify_set _ _ _ _) rfl ?_⟩
      simp only [finishObjective, List.length_set]

/-- The last two samples of objectives that have two can be compared. -/
theorem outOfLeeway_isSome {list : List (Objective F)}
    (enough : ∀ o ∈ list, 2 ≤ o.samples.length) : (outOfLeeway list).isSome := by
  induction list with
  | nil => rfl
  | cons o list ih =>
    obtain ⟨two, enough⟩ := List.forall_mem_cons.mp enough
    have rest := ih enough
    have last : o.samples[0]? = some o.samples[0] := List.getElem?_eq_getElem _
    have previous : o.samples[1]? = some o.samples[1] := List.getElem?_eq_getElem _
    rw [outOfLeeway, last, previous]
    simp only [Option.bind_eq_bind, Option.bind_some]
    split
    · split
      · rfl
      · exact rest
    · exact rest

/-- The search goes on when there are samples. -/
theorem search_isSome {obj : Objective F} (nonempty : 1 ≤ obj.samples.length)
    (enough : ∀ o ∈ self.objectives, 2 ≤ o.samples.length) : (self.search obj).isSome := by
  have last : obj.samples[0]? = Option.some obj.samples[0] := List.getElem?_eq_getElem _
  obtain ⟨out, found⟩ := Option.isSome_iff_exists.mp
    (outOfLeeway_isSome fun o there => enough o (List.mem_of_mem_take there))
  rw [search, last]
  simp only [Option.bind_eq_bind, Option.bind_some]
  split
  · rfl
  · rw [found, Option.bind_some]
    split <;> rfl

/-- The search is initialised when there are three samples. -/
theorem prepare_isSome {obj : Objective F} {count : Nat} (sampled : obj.Sampled count)
    (three : 3 ≤ obj.samples.length) : (self.prepare obj).isSome := by
  unfold prepare
  split
  · rfl
  · have read {n : Nat} (positive : 0 < n) (few : n ≤ 3) :
        ∃ sample, obj.sampleFromEnd n = some sample := by
      rw [← Option.isSome_iff_exists, Objective.sampleFromEnd_isSome sampled positive]
      omega
    obtain ⟨first, one⟩ := read (n := 1) (by omega) (by omega)
    obtain ⟨second, two⟩ := read (n := 2) (by omega) (by omega)
    obtain ⟨third, three⟩ := read (n := 3) (by omega) (by omega)
    rw [initializeObjective, one, two, three]
    rfl

/-- A step reads what there is exactly if it is early enough or three samples have been taken. -/
theorem stepAllscale_isSome {count : Nat} (sampled : ∀ o ∈ self.objectives, o.Sampled count)
    (initialized : ∀ o ∈ self.objectives, o.initialized → 3 ≤ count)
    (inside : self.currentObjectiveIdx < self.objectives.length) (threads : self.maxThreads ≠ 0)
    (frequencies : self.frequenciesParamAllowed ≠ []) :
    (self.stepAllscale draws).isSome ↔ self.steps < warmupSteps ∨ 3 ≤ count := by
  unfold stepAllscale
  rw [if_neg (Nat.not_lt.mpr inside.le)]
  split
  · rename_i early
    rw [randMod_eq threads, randMod_eq (by rwa [Ne, List.length_eq_zero_iff])]
    exact ⟨fun _ => .inl early, fun _ => rfl⟩
  · rename_i late
    have found := List.getElem?_eq_getElem inside
    have there := List.getElem_mem inside
    refine ⟨fun read => .inr ?_, fun enough => ?_⟩
    · obtain ⟨result, taken⟩ := Option.isSome_iff_exists.mp read
      simp only [Option.bind_eq_bind, Option.bind_eq_some_iff] at taken
      obtain ⟨obj, same, prepared, prepares, -⟩ := taken
      rw [found] at same
      cases same
      rcases (prepare_eq_some found prepares).1 with init | three
      · exact initialized _ there init
      · exact three.trans (sampled _ there).measured
    · have three (o : Objective F) (there : o ∈ self.objectives) : 3 ≤ o.samples.length := by
        have least := (sampled o there).least
        omega
      obtain ⟨prepared, prepares⟩ := Option.isSome_iff_exists.mp
        (self.prepare_isSome (sampled _ there) (three _ there))
      obtain ⟨-, nmd, same⟩ := prepare_eq_some found prepares
      have searches : (prepared.search self.objectives[self.currentObjectiveIdx]).isSome := by
        refine search_isSome (by have := three _ there; omega) fun o member => ?_
        rw [same] at member
        rcases List.mem_or_eq_of_mem_set member with member | changed
        · have := three o member
          omega
        · have := three _ there
          rw [changed]
          simp only
          omega
      rw [found]
      simp only [Option.bind_eq_bind, Option.bind_some, prepares]
      exact searches

end LocalOptimizer

end Model

end AllScale
