import Mathlib.Algebra.Order.Ring.Rat
import Mathlib.Tactic.NormNum
import AllScale.Lib.Run

/-!
# The tuner

`simple_coordinate_descent` searches for the configuration with the best score: a number of nodes
and a frequency. It remembers the best configuration that has been measured, forgets its score when
the objective changes, and goes on from it in one of four directions. The constructor does not
initialise the best score, so the tuner starts with whatever is in memory.
-/

namespace AllScale

open Transition

/-! ## Configurations -/

/-- `tuner_configuration`. -/
structure TunerConfiguration where
  /-- `node_mask`. -/
  nodeMask : List Bool
  /-- `frequency`. -/
  frequency : Nat
  deriving DecidableEq

/-- `tuning_objective`, for a type of numbers. -/
structure TuningObjective (F : Type) where
  /-- `speed_exponent`. -/
  speedExponent : F
  /-- `efficiency_exponent`. -/
  efficiencyExponent : F
  /-- `power_exponent`. -/
  powerExponent : F
  deriving DecidableEq

/-- `tuning_objective::operator!=`. -/
def TuningObjective.differs {F : Type} [BEq F] (self other : TuningObjective F) : Bool :=
  !(self.speedExponent == other.speedExponent &&
    self.efficiencyExponent == other.efficiencyExponent &&
    self.powerExponent == other.powerExponent)

/-- `simple_coordinate_descent::dimension`. -/
inductive Dimension where
  | numNodes
  | frequency
  deriving DecidableEq

/-- `simple_coordinate_descent::direction`. -/
inductive Direction where
  | up
  | down
  deriving DecidableEq

namespace TunerConfiguration

/-- The loop of `inc` over a mask: the first node that is not active is activated. -/
def activate : (mask : List Bool) → List Bool
  | [] => []
  | false :: mask => true :: mask
  | true :: mask => true :: activate mask

/-- `inc` for a mask. -/
def incMask (mask : List Bool) : Option (List Bool) :=
  if mask.count true = mask.length then none else some (activate mask)

/-- The loop of `dec` over a mask, from its end: the first active node is deactivated. -/
def deactivate : (mask : List Bool) → List Bool
  | [] => []
  | true :: mask => false :: mask
  | false :: mask => false :: deactivate mask

/-- `dec` for a mask. -/
def decMask (mask : List Bool) : Option (List Bool) :=
  if mask.count true = 1 then none else some (deactivate mask.reverse).reverse

/-- `inc` for a frequency, with its check that the frequency is available. The iterators are never
in descending order, so the list is always taken to be ascending. -/
def incFrequency (freqs : List Nat) (freq : Nat) : Option (Option Nat) :=
  let pos := freqs.findIdx fun available => available = freq
  if pos = freqs.length then none
  else if pos = freqs.length - 1 then some none
  else some freqs[pos + 1]?

/-- `dec` for a frequency. -/
def decFrequency (freqs : List Nat) (freq : Nat) : Option (Option Nat) :=
  let pos := freqs.findIdx fun available => available = freq
  if pos = freqs.length then none
  else if pos = 0 then some none
  else some freqs[pos - 1]?

/-- The condition of the assertion in `next`: there is another configuration. -/
def hasSpace (freqs : List Nat) (cfg : TunerConfiguration) : Option Bool :=
  if (incMask cfg.nodeMask).isSome || (decMask cfg.nodeMask).isSome then some true
  else do
    let above ← incFrequency freqs cfg.frequency
    if above.isSome then some true
    else do
      let below ← decFrequency freqs cfg.frequency
      some below.isSome

/-- The neighbour of a configuration in a dimension and a direction. -/
def neighbour (freqs : List Nat) (cfg : TunerConfiguration) :
    Dimension → Direction → Option (Option TunerConfiguration)
  | .numNodes, .up => some ((incMask cfg.nodeMask).map fun n => { cfg with nodeMask := n })
  | .numNodes, .down => some ((decMask cfg.nodeMask).map fun n => { cfg with nodeMask := n })
  | .frequency, .up =>
    (incFrequency freqs cfg.frequency).map fun n => n.map fun n => { cfg with frequency := n }
  | .frequency, .down =>
    (decFrequency freqs cfg.frequency).map fun n => n.map fun n => { cfg with frequency := n }

end TunerConfiguration

/-! ## The search -/

/-- `simple_coordinate_descent`, for a type of numbers. -/
structure SimpleCoordinateDescent (F : Type) where
  /-- `dim`. -/
  dim : Dimension
  /-- `dir`. -/
  dir : Direction
  /-- `objective`. -/
  objective : TuningObjective F
  /-- `best`. -/
  best : TunerConfiguration
  /-- `best_score`. -/
  bestScore : F
  deriving DecidableEq

namespace SimpleCoordinateDescent

variable {F : Type}

/-- The constructor of `simple_coordinate_descent`, with what is in the memory of `best_score`. -/
def create (cfg : TunerConfiguration) (defaultObjective : TuningObjective F) (memory : F) :
    SimpleCoordinateDescent F :=
  ⟨.numNodes, .down, defaultObjective, cfg, memory⟩

/-- `simple_coordinate_descent::next_direction`. -/
def nextDirection (self : SimpleCoordinateDescent F) : SimpleCoordinateDescent F :=
  match self.dir with
  | .up => { self with dir := .down }
  | .down =>
    { self with
      dir := .up
      dim :=
        match self.dim with
        | .numNodes => .frequency
        | .frequency => .numNodes }

/-- The loop of `next` for a configuration; `fuel` bounds its rounds. -/
def search (freqs : List Nat) (res : TunerConfiguration) :
    (fuel : Nat) → SimpleCoordinateDescent F →
      Option (TunerConfiguration × SimpleCoordinateDescent F)
  | 0, _ => none
  | fuel + 1, self => do
    match ← res.neighbour freqs self.dim self.dir with
    | some res => some (res, self)
    | none => search freqs res fuel self.nextDirection

section Next

variable [BEq F] [One F] [Neg F] [LT F] [DecidableLT F]

/-- The part of `next` in which the objective is compared with the last one. -/
def retarget (self : SimpleCoordinateDescent F) (obj : TuningObjective F) :
    SimpleCoordinateDescent F :=
  if obj.differs self.objective then { self with bestScore := -1, objective := obj } else self

/-- The part of `next` in which a measurement is compared with the best one. -/
def adopt (self : SimpleCoordinateDescent F) (currentCfg : TunerConfiguration) (score : F) :
    SimpleCoordinateDescent F :=
  let self := if score < self.bestScore then self.nextDirection else self
  if score > self.bestScore then { self with bestScore := score, best := currentCfg } else self

/-- `simple_coordinate_descent::next`; `fuel` bounds its loop. -/
def next (freqs : List Nat) (self : SimpleCoordinateDescent F) (currentCfg : TunerConfiguration)
    (score : F) (obj : TuningObjective F) (fuel : Nat) :
    Option (TunerConfiguration × SimpleCoordinateDescent F) := do
  let self := self.retarget obj
  if (← currentCfg.hasSpace freqs) then
    let self := self.adopt currentCfg score
    search freqs self.best fuel self
  else none

end Next

/-- The direction that is tried next leaves everything else unchanged. -/
theorem nextDirection_keeps (self : SimpleCoordinateDescent F) :
    self.nextDirection.best = self.best ∧ self.nextDirection.bestScore = self.bestScore ∧
      self.nextDirection.objective = self.objective := by
  unfold nextDirection
  cases self.dir <;> exact ⟨rfl, rfl, rfl⟩

/-- The search leaves the best configuration unchanged. -/
theorem search_keeps {freqs : List Nat} {res res' : TunerConfiguration} {fuel : Nat}
    {self self' : SimpleCoordinateDescent F}
    (found : search freqs res fuel self = some (res', self')) :
    self'.best = self.best ∧ self'.bestScore = self.bestScore ∧
      self'.objective = self.objective := by
  induction fuel generalizing self with
  | zero => cases found
  | succ fuel ih =>
    rw [search] at found
    obtain ⟨neighbour, -, rest⟩ := Option.bind_eq_some_iff.mp found
    cases neighbour with
    | some res =>
      cases rest
      exact ⟨rfl, rfl, rfl⟩
    | none =>
      obtain ⟨best, score, objective⟩ := ih rest
      obtain ⟨best', score', objective'⟩ := self.nextDirection_keeps
      exact ⟨best.trans best', score.trans score', objective.trans objective'⟩

/-- A search that does not return has found no neighbour, and goes on with the next direction. -/
theorem not_search {freqs : List Nat} {res : TunerConfiguration} {fuel : Nat}
    {self : SimpleCoordinateDescent F}
    (available : ∀ dim dir, res.neighbour freqs dim dir ≠ none)
    (failed : ¬ ∃ result, search freqs res (fuel + 1) self = some result) :
    res.neighbour freqs self.dim self.dir = some none ∧
      ¬ ∃ result, search freqs res fuel self.nextDirection = some result := by
  obtain ⟨neighbour, found⟩ := Option.ne_none_iff_exists'.mp (available self.dim self.dir)
  rw [search, found] at failed
  cases neighbour with
  | some other => exact absurd ⟨_, rfl⟩ failed
  | none => exact ⟨found, failed⟩

/-- With another configuration in some direction the search returns: four rounds go through all
directions. -/
theorem exists_search {freqs : List Nat} {res : TunerConfiguration}
    (available : ∀ dim dir, res.neighbour freqs dim dir ≠ none)
    (space : ∃ dim dir other, res.neighbour freqs dim dir = some (some other))
    (self : SimpleCoordinateDescent F) : ∃ result, search freqs res 4 self = some result := by
  by_contra failed
  obtain ⟨first, failed⟩ := not_search available failed
  obtain ⟨second, failed⟩ := not_search available failed
  obtain ⟨third, failed⟩ := not_search available failed
  obtain ⟨fourth, -⟩ := not_search available failed
  obtain ⟨dim, dir, other, found⟩ := space
  obtain ⟨dim', dir', objective, best, bestScore⟩ := self
  simp only [nextDirection] at first second third fourth
  cases dim <;> cases dir <;> cases dim' <;> cases dir' <;> simp_all

/-! ## Runs -/

section Runs

/-- A measurement, with the objective at that time. -/
structure Measurement (F : Type) where
  /-- The configuration that was measured. -/
  cfg : TunerConfiguration
  /-- Its score. -/
  score : F
  /-- The objective. -/
  obj : TuningObjective F

/-- A tuner, and the measurements passed in since it was constructed or the objective changed. -/
structure Tuning (F : Type) where
  /-- The tuner. -/
  tuner : SimpleCoordinateDescent F
  /-- The configurations and scores, the latest first. -/
  measured : List (TunerConfiguration × F)
  deriving DecidableEq

/-- The tuner remembers a measurement of maximal score. -/
def Tuning.KeepsBest [LT F] (t : Tuning F) : Prop :=
  t.measured ≠ [] → (t.tuner.best, t.tuner.bestScore) ∈ t.measured ∧
    ∀ other ∈ t.measured, ¬ t.tuner.bestScore < other.2

/-- The first measurement changes the objective, or has a greater score than the one that the tuner
has started with, or is what it has started with. -/
def Tuning.Overwrites [BEq F] [LT F] (t : Tuning F) (m : Measurement F) : Prop :=
  t.measured = [] → m.obj.differs t.tuner.objective = true ∨ t.tuner.bestScore < m.score ∨
    t.tuner.best = m.cfg ∧ t.tuner.bestScore = m.score

variable [BEq F] [Zero F] [One F] [Neg F] [Preorder F] [DecidableLT F] {freqs : List Nat}
  {cfg : TunerConfiguration} {defaultObjective : TuningObjective F} {memory : F}

/-- The calls of `next`, for measurements with scores that are not negative. -/
def tuning (freqs : List Nat) (cfg : TunerConfiguration) (defaultObjective : TuningObjective F)
    (memory : F) : System (Tuning F) (Measurement F) where
  start := ⟨create cfg defaultObjective memory, []⟩
  step t m t' := 0 ≤ m.score ∧ ∃ fuel res tuner,
    t.tuner.next freqs m.cfg m.score m.obj fuel = some (res, tuner) ∧
    t' = ⟨tuner, if m.obj.differs t.tuner.objective then [(m.cfg, m.score)]
      else (m.cfg, m.score) :: t.measured⟩

omit [Zero F] in
/-- What a call remembers: the measurement when its score is greater than the best one, which is
reset when the objective changes. -/
theorem next_keeps {self self' : SimpleCoordinateDescent F} {m : Measurement F} {fuel : Nat}
    {res : TunerConfiguration}
    (called : self.next freqs m.cfg m.score m.obj fuel = some (res, self')) :
    self'.best = (if (self.retarget m.obj).bestScore < m.score then m.cfg else self.best) ∧
      self'.bestScore = (if (self.retarget m.obj).bestScore < m.score then m.score
        else (self.retarget m.obj).bestScore) := by
  have kept : (self.retarget m.obj).best = self.best := by
    unfold retarget
    split <;> rfl
  unfold next at called
  obtain ⟨space, -, rest⟩ := Option.bind_eq_some_iff.mp called
  split at rest
  · obtain ⟨best, score, -⟩ := search_keeps rest
    rw [best, score, ← kept]
    generalize self.retarget m.obj = t
    have turned : (if m.score < t.bestScore then t.nextDirection else t).best = t.best ∧
        (if m.score < t.bestScore then t.nextDirection else t).bestScore = t.bestScore := by
      obtain ⟨best, score, -⟩ := t.nextDirection_keeps
      split
      · exact ⟨best, score⟩
      · exact ⟨rfl, rfl⟩
    unfold adopt
    simp only [turned.2, gt_iff_lt]
    split
    · exact ⟨rfl, rfl⟩
    · exact turned
  · cases rest

/-- A call keeps a measurement of maximal score exactly if it is not the first one or overwrites
what the tuner has started with. -/
theorem keepsBest_step (negative : (-1 : F) < 0) {t t' : Tuning F} {m : Measurement F}
    (keepsBest : t.KeepsBest) (called : (tuning freqs cfg defaultObjective memory).step t m t') :
    t'.KeepsBest ↔ t.Overwrites m := by
  obtain ⟨nonneg, fuel, res, tuner, returned, rfl⟩ := called
  obtain ⟨best, score⟩ := next_keeps returned
  by_cases changed : m.obj.differs t.tuner.objective = true
  · have reset : (t.tuner.retarget m.obj).bestScore = -1 := by
      unfold retarget
      rw [if_pos changed]
    have greater : (-1 : F) < m.score := lt_of_lt_of_le negative nonneg
    rw [reset, if_pos greater] at best score
    constructor
    · exact fun _ _ => Or.inl changed
    · intro _ _
      simp only [if_pos changed]
      rw [best, score]
      refine ⟨List.mem_cons_self, fun other found => ?_⟩
      rw [List.mem_singleton.mp found]
      exact lt_irrefl _
  · have same : t.tuner.retarget m.obj = t.tuner := if_neg changed
    rw [same] at best score
    unfold Tuning.KeepsBest Tuning.Overwrites
    simp only [if_neg changed, best, score]
    by_cases greater : t.tuner.bestScore < m.score
    · simp only [if_pos greater]
      refine ⟨fun _ _ => Or.inr (Or.inl greater), fun _ _ => ⟨List.mem_cons_self, ?_⟩⟩
      intro other found less
      rcases List.mem_cons.mp found with here | before
      · rw [here] at less
        exact lt_irrefl _ less
      · obtain ⟨-, maximal⟩ := keepsBest (List.ne_nil_of_mem before)
        exact maximal other before (lt_trans greater less)
    · simp only [if_neg greater]
      constructor
      · intro keeps first
        obtain ⟨member, -⟩ := keeps (List.cons_ne_nil _ _)
        rw [first, List.mem_singleton] at member
        exact Or.inr (Or.inr (Prod.mk.inj member))
      · intro overwrites _
        have member : (t.tuner.best, t.tuner.bestScore) ∈ (m.cfg, m.score) :: t.measured := by
          by_cases first : t.measured = []
          · rcases overwrites first with differs | less | equal
            · exact absurd differs changed
            · exact absurd less greater
            · rw [equal.1, equal.2]
              exact List.mem_cons_self
          · exact List.mem_cons_of_mem _ (keepsBest first).1
        refine ⟨member, fun other found => ?_⟩
        rcases List.mem_cons.mp found with here | before
        · rw [here]
          exact greater
        · exact (keepsBest (List.ne_nil_of_mem before)).2 other before

/-- In every run the tuner remembers a measurement of maximal score after every call exactly if the
first measurement overwrites what it has started with. -/
theorem keepsBest_run_iff (negative : (-1 : F) < 0) {history : List (Tuning F × Measurement F)}
    {t : Tuning F} (run : (tuning freqs cfg defaultObjective memory).Run history t) :
    System.Always Tuning.KeepsBest history t ↔ System.Meets Tuning.Overwrites history := by
  apply run.always_iff (J := fun _ => True) trivial (fun _ _ => trivial)
  · exact fun nonempty => absurd rfl nonempty
  · exact fun _ keepsBest called => keepsBest_step negative keepsBest called

end Runs

/-- Two active nodes, for which there is one frequency. -/
def twoActive : TunerConfiguration := ⟨[true, true], 1⟩

/-- An objective. -/
def speedObjective : TuningObjective ℚ := ⟨1, 0, 0⟩

/-- The tuner has started with a score of zero. -/
theorem keepsBest_run_two : ∃ (history : List (Tuning ℚ × Measurement ℚ)) (t : Tuning ℚ),
    (tuning [1] twoActive speedObjective 0).Run history t ∧ history.length = 2 ∧
      t.tuner.best = ⟨[true, false], 1⟩ ∧ t.tuner.bestScore = 3 / 4 ∧
      (System.Always Tuning.KeepsBest history t ↔ System.Meets Tuning.Overwrites history) := by
  let first : Tuning ℚ := ⟨⟨.numNodes, .down, speedObjective, twoActive, 1 / 2⟩,
    [(twoActive, 1 / 2)]⟩
  let second : Tuning ℚ := ⟨⟨.numNodes, .up, speedObjective, ⟨[true, false], 1⟩, 3 / 4⟩,
    [(⟨[true, false], 1⟩, 3 / 4), (twoActive, 1 / 2)]⟩
  have one : (tuning [1] twoActive speedObjective 0).step
      (tuning [1] twoActive speedObjective 0).start ⟨twoActive, 1 / 2, speedObjective⟩ first :=
    ⟨by norm_num, 4, ⟨[true, false], 1⟩, first.tuner, by decide +kernel, by decide +kernel⟩
  have two : (tuning [1] twoActive speedObjective 0).step first
      ⟨⟨[true, false], 1⟩, 3 / 4, speedObjective⟩ second :=
    ⟨by norm_num, 4, ⟨[true, true], 1⟩, second.tuner, by decide +kernel, by decide +kernel⟩
  have run := (System.Run.start.step one).step two
  exact ⟨_, _, run, rfl, rfl, rfl, keepsBest_run_iff (by norm_num) run⟩

/-- The memory of the tuner holds a score of one when it is constructed; the first measurement has a
score of one half, and the tuner takes one for the best score that has been measured. -/
theorem not_keepsBest : ∃ (history : List (Tuning ℚ × Measurement ℚ)) (t : Tuning ℚ),
    (tuning [1] twoActive speedObjective 1).Run history t ∧ ¬ t.KeepsBest := by
  let first : Tuning ℚ := ⟨⟨.numNodes, .down, speedObjective, twoActive, 1⟩, [(twoActive, 1 / 2)]⟩
  have one : (tuning [1] twoActive speedObjective 1).step
      (tuning [1] twoActive speedObjective 1).start ⟨twoActive, 1 / 2, speedObjective⟩ first :=
    ⟨by norm_num, 4, ⟨[true, false], 1⟩, first.tuner, by decide +kernel, by decide +kernel⟩
  refine ⟨_, _, System.Run.start.step one, fun keepsBest => ?_⟩
  obtain ⟨member, -⟩ := keepsBest (List.cons_ne_nil _ _)
  have same : (1 : ℚ) = 1 / 2 := (Prod.mk.inj (List.mem_singleton.mp member)).2
  norm_num at same

end SimpleCoordinateDescent

end AllScale
