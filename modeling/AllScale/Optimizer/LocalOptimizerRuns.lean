import AllScale.Lib.Writes
import AllScale.Optimizer.LocalOptimizer

/-!
# Runs of the local optimizer

Over every run of measurements and steps the objectives are brought to their minima one after the
other, in the order of their priorities, and what has been found for one of them stays.
-/

namespace AllScale

open Transition NelderMead Double Writes

section Model

variable {F : Type} [Double F]

namespace LocalOptimizer

variable {self self' : LocalOptimizer F} {draws : Nat × Nat} {act : Actuation}

/-! ## One objective after the other -/

/-- What names an objective. -/
def label (o : Objective F) : ObjectiveType × F × Nat := (o.type, o.leeway, o.priority)

/-- What holds after so many measurements: the objectives up to the current one have been brought to
their minima, and those behind it have not been searched for. -/
structure Sound (start : LocalOptimizer F) (count : Nat) (opt : LocalOptimizer F) : Prop where
  keeps : Keeps start opt
  labels : opt.objectives.map label = start.objectives.map label
  sampled : ∀ o ∈ opt.objectives, o.Sampled count
  bound : opt.currentObjectiveIdx ≤ opt.objectives.length
  /-- The optimizer has converged when there is no current objective any more. -/
  converged : opt.converged = true ↔ opt.currentObjectiveIdx = opt.objectives.length
  /-- The objectives before the current one have converged, and no others. -/
  before : ∀ i o, opt.objectives[i]? = some o →
    (o.converged = true ↔ i < opt.currentObjectiveIdx)
  /-- No objective behind the current one has been initialised. -/
  behind : ∀ i o, opt.objectives[i]? = some o → o.initialized = true →
    i ≤ opt.currentObjectiveIdx
  initialized : ∀ o ∈ opt.objectives, o.initialized = true → 3 ≤ count

/-- What has been found for the objectives before the current one stays. -/
structure Kept (opt opt' : LocalOptimizer F) : Prop where
  further : opt.currentObjectiveIdx ≤ opt'.currentObjectiveIdx
  found : ∀ i < opt.currentObjectiveIdx,
    opt'.objectives[i]?.map (fun o => (o.convergedMinimum, o.minimizationParams)) =
      opt.objectives[i]?.map fun o => (o.convergedMinimum, o.minimizationParams)

omit [Double F] in
/-- What stays for two steps. -/
theorem Kept.trans {first second third : LocalOptimizer F} (early : Kept first second)
    (late : Kept second third) : Kept first third :=
  ⟨early.further.trans late.further, fun i before =>
    (late.found i (before.trans_le early.further)).trans (early.found i before)⟩

variable {start : LocalOptimizer F} {count : Nat}

/-- There is a current objective until the optimizer has converged. -/
theorem Sound.inside (sound : Sound start count self) (going : self.converged = false) :
    self.currentObjectiveIdx < self.objectives.length := by
  refine Nat.lt_of_le_of_ne sound.bound fun done => ?_
  rw [sound.converged.mpr done] at going
  cases going

/-- A measurement only adds samples. -/
theorem sound_measure [IsStrictOrder F (· < ·)] (sound : Sound start count self)
    (iterTime power threads : F) :
    Sound start (count + 1) (self.measureObjective iterTime power threads) ∧
      Kept self (self.measureObjective iterTime power threads) := by
  obtain ⟨policy, threads', frequencies⟩ := sound.keeps
  refine ⟨⟨⟨policy, threads', frequencies⟩, ?_, ?_, ?_, ?_, fun i o there => ?_,
    fun i o there => ?_, ?_⟩, le_rfl, fun i _ => ?_⟩
  · rw [← sound.labels, measureObjective, List.map_map]
    rfl
  · exact List.forall_mem_map.mpr fun o there =>
      Objective.sampled_measure (sound.sampled o there) _ _ _ _
  · rw [measureObjective, List.length_map]
    exact sound.bound
  · rw [measureObjective, List.length_map]
    exact sound.converged
  · rw [measureObjective, List.getElem?_map] at there
    obtain ⟨o', there, same⟩ := Option.map_eq_some_iff.mp there
    rw [← same]
    exact sound.before i o' there
  · rw [measureObjective, List.getElem?_map] at there
    obtain ⟨o', there, same⟩ := Option.map_eq_some_iff.mp there
    rw [← same]
    exact sound.behind i o' there
  · exact List.forall_mem_map.mpr fun o there ready =>
      (sound.initialized o there ready).trans (Nat.le_succ count)
  · rw [measureObjective, List.getElem?_map, Option.map_map]
    rfl

/-- A change of the current objective leaves the other ones and its own name and samples. -/
theorem sound_set (sound : Sound start count self) {obj : Objective F}
    (found : self.objectives[self.currentObjectiveIdx]? = some obj) (obj' : Objective F)
    (same : label obj' = label obj)
    (sampled : obj'.Sampled count) (ready : 3 ≤ count) (keeps : Keeps self self')
    (objectives : self'.objectives = self.objectives.set self.currentObjectiveIdx obj')
    (finished : (obj'.converged = true ∧
        self'.currentObjectiveIdx = self.currentObjectiveIdx + 1 ∧ (self'.converged = true ↔
          self.currentObjectiveIdx + 1 = self.objectives.length)) ∨
      (obj'.converged = false ∧ self'.currentObjectiveIdx = self.currentObjectiveIdx ∧
        self'.converged = self.converged)) :
    Sound start count self' ∧ Kept self self' := by
  have inside := (List.getElem?_eq_some_iff.mp found).1
  have here : self'.objectives[self.currentObjectiveIdx]? = some obj' := by
    rw [objectives, List.getElem?_set_self inside]
  have other {i : Nat} (different : self.currentObjectiveIdx ≠ i) :
      self'.objectives[i]? = self.objectives[i]? := by
    rw [objectives, List.getElem?_set_ne different]
  have labels : self'.objectives.map label = self.objectives.map label := by
    rw [objectives, List.map_set, same]
    exact set_eq_self (by rw [List.getElem?_map, found]; rfl)
  have further : self.currentObjectiveIdx ≤ self'.currentObjectiveIdx := by
    rcases finished with ⟨-, index, -⟩ | ⟨-, index, -⟩ <;> omega
  have old := sound.before _ _ found
  refine ⟨⟨?_, labels.trans sound.labels, fun o there => ?_, ?_, ?_, fun i o there => ?_,
    fun i o there initialized => ?_, fun _ _ _ => ready⟩, further, fun i before => ?_⟩
  · exact ⟨keeps.optMethod.trans sound.keeps.optMethod,
      keeps.maxThreads.trans sound.keeps.maxThreads,
      keeps.frequencies.trans sound.keeps.frequencies⟩
  · rw [objectives] at there
    rcases List.mem_or_eq_of_mem_set there with there | changed
    · exact sound.sampled o there
    · exact changed ▸ sampled
  · rw [objectives, List.length_set]
    rcases finished with ⟨-, index, -⟩ | ⟨-, index, -⟩ <;> omega
  · rw [objectives, List.length_set]
    rcases finished with ⟨-, index, converged⟩ | ⟨-, index, converged⟩
    · rw [index]
      exact converged
    · rw [index, converged]
      exact sound.converged
  · by_cases current : self.currentObjectiveIdx = i
    · rw [← current, here] at there
      cases there
      rcases finished with ⟨done, index, -⟩ | ⟨going, index, -⟩
      · simp [done, index, ← current]
      · simp [going, index, ← current]
    · rw [other current] at there
      refine (sound.before i o there).trans ?_
      rcases finished with ⟨-, index, -⟩ | ⟨-, index, -⟩ <;> omega
  · by_cases current : self.currentObjectiveIdx = i
    · omega
    · rw [other current] at there
      have := sound.behind i o there initialized
      omega
  · rw [other before.ne']

/-- A step goes on with the current objective, or ends the search for it. -/
theorem sound_stepChange (sound : Sound start count self) (going : self.converged = false)
    (keeps : Keeps self self') (change : StepChange self self') :
    Sound start count self' ∧ Kept self self' := by
  -- what is read from the objective was sampled
  have ready {obj : Objective F} (found : self.objectives[self.currentObjectiveIdx]? = some obj)
      (read : obj.initialized ∨ 3 ≤ obj.samples.length) : 3 ≤ count := by
    have there := List.mem_of_getElem? found
    exact read.elim (sound.initialized obj there) fun three =>
      three.trans (sound.sampled obj there).measured
  have samples {obj obj' : Objective F}
      (found : self.objectives[self.currentObjectiveIdx]? = some obj)
      (same : obj' = { obj with
        converged := obj'.converged
        initialized := obj'.initialized
        convergedMinimum := obj'.convergedMinimum
        minimizationParams := obj'.minimizationParams }) : obj'.Sampled count := by
    have sampled := sound.sampled obj (List.mem_of_getElem? found)
    rw [same]
    exact ⟨sampled.threads, sampled.freqs, sampled.most, sampled.measured, sampled.least,
      sampled.low, sampled.high⟩
  cases change with
  | warmUp early objectives index converged =>
    obtain ⟨policy, threads, frequencies⟩ := keeps
    refine ⟨⟨⟨policy.trans sound.keeps.1, threads.trans sound.keeps.2,
      frequencies.trans sound.keeps.3⟩, ?_, ?_, ?_, ?_, ?_, ?_, ?_⟩, index.ge, fun i _ => ?_⟩
    · rw [objectives]
      exact sound.labels
    · rw [objectives]
      exact sound.sampled
    · rw [objectives, index]
      exact sound.bound
    · rw [objectives, index, converged]
      exact sound.converged
    · rw [objectives, index]
      exact sound.before
    · rw [objectives, index]
      exact sound.behind
    · rw [objectives]
      exact sound.initialized
    · rw [objectives]
  | @search obj found read objectives index converged =>
    have notYet : obj.converged = false := by
      have before := sound.before _ _ found
      simpa using before
    exact sound_set sound found { obj with initialized := true } rfl (samples found rfl)
      (ready found read) keeps objectives (.inr ⟨notYet, index, converged⟩)
  | @finish obj nmd found read objectives index converged =>
    refine sound_set sound found ({ obj with initialized := true }.finish nmd) rfl
      (samples found rfl) (ready found read) keeps objectives (.inl ⟨rfl, index, ?_⟩)
    rw [converged, going, Bool.false_or, beq_iff_eq]

/-- The number of measurements of an action. -/
def Action.measures : Action F → Nat
  | .measure _ _ _ => 1
  | .step _ _ => 0

/-- The number of measurements of a run. -/
def measurements (history : List (LocalOptimizer F × Action F)) : Nat :=
  (history.map fun taken => taken.2.measures).sum

/-- What holds after a run. -/
structure Optimizes (start : LocalOptimizer F) (history : List (LocalOptimizer F × Action F))
    (opt : LocalOptimizer F) : Prop where
  sound : Sound start (measurements history) opt
  /-- While it has not converged, a step reads what there is exactly if it is early enough or three
  measurements have been made. -/
  reads : opt.converged = false → ∀ draws,
    (opt.step draws).isSome ↔ opt.steps + 1 < warmupSteps ∨ 3 ≤ measurements history
  /-- What has been found for an objective stays. -/
  kept : ∀ taken ∈ history, Kept taken.1 opt

omit [Double F] in
/-- What is set after a step has no part in the search. -/
theorem actuate_eq (self : LocalOptimizer F) (act : Actuation) (activeThreads : Nat) :
    ∃ threadsParam frequencyParam,
      self.actuate act activeThreads = { self with threadsParam, frequencyParam } := by
  unfold actuate
  split
  · exact ⟨_, _, rfl⟩
  · split <;> exact ⟨_, _, rfl⟩

/-- Every action keeps the objectives in order, and counts the measurements. -/
theorem sound_optimizeLocally [IsStrictOrder F (· < ·)] (policy : start.optMethod = .allscale)
    (sound : Sound start count self) {action : Action F}
    (taken : self.optimizeLocally action = some self') :
    Sound start (count + action.measures) self' ∧ Kept self self' := by
  unfold optimizeLocally at taken
  split at taken
  · cases taken
  · rename_i going
    have going : self.converged = false := by simpa using going
    cases action with
    | measure iterTime power activeThreads =>
      cases taken
      exact sound_measure sound _ _ _
    | step draws activeThreads =>
      simp only [Option.bind_eq_bind, Option.bind_eq_some_iff] at taken
      obtain ⟨⟨act, stepped⟩, steps, same⟩ := taken
      rw [step_eq (sound.keeps.optMethod.trans policy)] at steps
      obtain ⟨keeps, -, change⟩ := stepAllscale_cases (sound.inside going) steps
      obtain ⟨sound', kept⟩ := sound_stepChange sound going keeps change
      obtain ⟨threadsParam, frequencyParam, actuated⟩ := actuate_eq stepped act activeThreads
      cases same
      rw [actuated]
      exact ⟨⟨⟨sound'.keeps.1, sound'.keeps.2, sound'.keeps.3⟩, sound'.labels, sound'.sampled,
        sound'.bound, sound'.converged, sound'.before, sound'.behind, sound'.initialized⟩,
        ⟨kept.further, kept.found⟩⟩

/-- The objectives that `init` passes have not been searched for. -/
theorem sound_create {memory : NelderMead F} {targets : List (ObjectiveTarget F)} {osThreads : Nat}
    {frequencies : List Nat} (present : targets ≠ [])
    (created : create memory .allscale targets osThreads frequencies = some start) :
    Sound start 0 start ∧ start.maxThreads = osThreads ∧
      start.frequenciesParamAllowed = frequencies ∧ start.optMethod = .allscale := by
  simp only [create, Option.bind_eq_bind, Option.bind_eq_some_iff] at created
  obtain ⟨objectives, set, same⟩ := created
  cases same
  rw [setObjectives, foldlM_writeAt] at set
  split at set
  · cases set
    have fresh {o : Objective F} (there : o ∈ targets.foldl (fun objectives o =>
        objectives.set o.priority (.start o)) (List.replicate targets.length .blank)) :
        o.converged = false ∧ o.initialized = false ∧ o.Sampled 0 := by
      rcases mem_foldl_set there with unset | ⟨target, -, same⟩
      · rw [(List.mem_replicate.mp unset).2]
        exact ⟨rfl, rfl, Objective.sampled_nil rfl rfl rfl⟩
      · rw [same]
        exact ⟨rfl, rfl, Objective.sampled_nil rfl rfl rfl⟩
    have length : 0 < targets.length := List.length_pos_iff.mpr present
    refine ⟨⟨⟨rfl, rfl, rfl⟩, rfl, fun o there => (fresh there).2.2, Nat.zero_le _, ?_,
      fun i o there => ?_, fun i o there initialized => ?_, fun o there initialized => ?_⟩,
      rfl, rfl, rfl⟩
    · rw [length_foldl_set, List.length_replicate]
      simp only [Bool.false_eq_true, false_iff]
      omega
    · simp [(fresh (List.mem_of_getElem? there)).1]
    · simp [(fresh (List.mem_of_getElem? there)).2.1] at initialized
    · simp [(fresh there).2.1] at initialized
  · cases set

/-- Over every run that starts with the objectives of the option, they are brought to their minima
one after the other. -/
theorem optimizes_of_run [IsStrictOrder F (· < ·)] {memory : NelderMead F}
    {targets : List (ObjectiveTarget F)} {osThreads : Nat} {frequencies : List Nat}
    {history : List (LocalOptimizer F × Action F)} (present : targets ≠ [])
    (threads : osThreads ≠ 0) (available : frequencies ≠ [])
    (created : create memory .allscale targets osThreads frequencies = some start)
    (run : (optimizing start).Run history self) : Optimizes start history self := by
  obtain ⟨fresh, maxThreads, allowed, policy⟩ := sound_create present created
  have readable {count : Nat} {opt : LocalOptimizer F} (sound : Sound start count opt)
      (going : opt.converged = false) (draws : Nat × Nat) :
      (opt.step draws).isSome ↔ opt.steps + 1 < warmupSteps ∨ 3 ≤ count := by
    rw [step_eq (sound.keeps.optMethod.trans policy)]
    refine stepAllscale_isSome sound.sampled sound.initialized (sound.inside going) ?_ ?_
    · exact ne_of_eq_of_ne (sound.keeps.maxThreads.trans maxThreads) threads
    · exact ne_of_eq_of_ne (sound.keeps.frequencies.trans allowed) available
  induction run with
  | start => exact ⟨fresh, readable fresh, by simp⟩
  | @step history opt opt' action run taken ih =>
    obtain ⟨sound, kept⟩ := sound_optimizeLocally policy ih.sound taken
    rw [Nat.add_comm] at sound
    refine ⟨sound, readable sound, fun earlier found => ?_⟩
    rcases List.mem_cons.mp found with rfl | found
    · exact kept
    · exact (ih.kept earlier found).trans kept

end LocalOptimizer

end Model

namespace LocalOptimizer

/-- The numbers are ordered. -/
instance strictOrderExact : IsStrictOrder Exact (· < ·) where
  irrefl := strictWeakOrderExact.irrefl
  trans := strictWeakOrderExact.trans

/-- The time comes before the threads. -/
def timeThenThreads : List (ObjectiveTarget Exact) :=
  [⟨.time, literal (1 / 2), 0⟩, ⟨.resource, literal 1, 1⟩]

/-- Three measurements, two steps that warm up and two steps that search. -/
def measuredThrice : List (Action Exact) :=
  [.measure (literal 1) (literal 7) 8, .step (3, 1) 8, .measure (literal 1) (literal 7) 8,
    .step (5, 2) 8, .measure (literal 1) (literal 7) 8, .step (0, 0) 8, .step (0, 0) 8]

/-- Equal samples end the search for each of two objectives. -/
theorem optimizes_of_run_two : ∃ (start self : LocalOptimizer Exact)
    (history : List (LocalOptimizer Exact × Action Exact)),
    create zeroed .allscale timeThenThreads 8 [1, 2, 3, 4, 5] = some start ∧
      (optimizing start).Run history self ∧ history.map Prod.snd = measuredThrice.reverse ∧
      self.converged = true ∧ Optimizes start history self := by
  have computed : (create zeroed .allscale timeThenThreads 8 [1, 2, 3, 4, 5]).bind (fun start =>
      (measuredThrice.foldlM optimizeLocally start).map (·.converged)) = some true := by
    decide +kernel
  obtain ⟨start, created, computed⟩ := Option.bind_eq_some_iff.mp computed
  obtain ⟨self, computed, converged⟩ := Option.map_eq_some_iff.mp computed
  obtain ⟨history, run, taken⟩ := (System.Run.start (S := optimizing start)).exists_of_foldlM
    id measuredThrice computed
  refine ⟨start, self, history, created, run, ?_, converged,
    optimizes_of_run (by simp [timeThenThreads]) (by decide) (by simp) created run⟩
  rw [taken, List.map_nil, List.append_nil]

-- The third step reads three samples when there are two.
example : (create zeroed .allscale timeThenThreads 8 [1, 2, 3, 4, 5]).bind (fun start =>
    ((measuredThrice.take 4).foldlM optimizeLocally start).map fun self =>
      (self.step (0, 0)).isSome) = some false := by
  decide +kernel

end LocalOptimizer

end AllScale
