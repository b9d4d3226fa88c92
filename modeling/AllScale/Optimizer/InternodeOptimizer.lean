import Mathlib.Algebra.Order.Ring.Rat
import AllScale.Lib.Run
import AllScale.Optimizer.Pareto

/-!
# The inter-node optimizer

`internode_optimizer_t` decides how many nodes are to be used. It explores configurations first, and
later returns the best one of its history, with an exploration now and then. Candidates come from
the configurations that have never been tried, from those that have been forgotten because of their
age, and from the history; since every decision is recorded by the next call, one of the three has
some.
-/

namespace AllScale

open Transition

/-- `INO_EXPLORATION_PHASE_STEPS`. -/
def inoExplorationPhaseSteps : Nat := 3

/-- `INO_EXPLORATION_SOFT_LIMIT`. -/
def inoExplorationSoftLimit : Nat := 10

/-- `INO_RANDOM_EVERY`. -/
def inoRandomEvery : Nat := 3

/-- `exploration_t`. -/
structure Exploration where
  /-- `u_nodes`. -/
  uNodes : Nat
  /-- `b_explored`. -/
  bExplored : Bool
  deriving DecidableEq

/-- `exploration_t::get_next`. -/
def Exploration.getNext (self : Exploration) : InoKnobs × Exploration :=
  (⟨self.uNodes⟩, { self with bExplored := true })

/-- `internode_optimizer_t`, for a type of numbers. -/
structure InternodeOptimizer (F : Type) where
  /-- `c_last_choice`. -/
  cLastChoice : InoKnobs
  /-- `u_min_nodes`. -/
  uMinNodes : Nat
  /-- `u_max_nodes`. -/
  uMaxNodes : Nat
  /-- `u_choices`. -/
  uChoices : Nat
  /-- `u_history_interval`. -/
  uHistoryInterval : Nat
  /-- `u_history_tick`. -/
  uHistoryTick : Nat
  /-- `v_past` — the entries of the map, in the order of their knobs. -/
  vPast : List (ParetoEntry F)
  /-- `v_explore_logistics`. -/
  vExploreLogistics : List Exploration
  /-- `s_forgotten`. -/
  sForgotten : List InoKnobs
  /-- `s_explore`. -/
  sExplore : List InoKnobs
  deriving DecidableEq

namespace InternodeOptimizer

variable {F : Type}

/-- The constructor of `internode_optimizer_t`, with the numbers of nodes that its target and its
leeway amount to: `ceil(d_target * u_nodes)` and `ceil((d_target + d_leeway) * u_nodes)`. -/
def create (nodes lower upper resetHistoryEvery : Nat) : InternodeOptimizer F :=
  let uMinNodes := max 1 lower
  let uMaxNodes := min nodes upper
  { cLastChoice := ⟨0⟩
    uMinNodes := uMinNodes
    uMaxNodes := uMaxNodes
    uChoices := 0
    uHistoryInterval := resetHistoryEvery
    uHistoryTick := 0
    vPast := []
    vExploreLogistics :=
      (List.range' uMinNodes (uMaxNodes + 1 - uMinNodes)).map fun n => ⟨n, false⟩
    sForgotten := []
    sExplore := [] }

/-! ## The history -/

/-- `internode_optimizer_t::record_point`. -/
def recordPoint (self : InternodeOptimizer F) (knobs : InoKnobs)
    (measureLoad measureTime measureEnergy : List F) : InternodeOptimizer F :=
  let newEntry : ParetoEntry F :=
    ⟨self.uHistoryTick, knobs, measureLoad, measureTime, measureEnergy⟩
  { self with
    vPast :=
      if self.vPast.any fun it => it.cKnobs = knobs then
        self.vPast.map fun it => if it.cKnobs = knobs then newEntry else it
      else OrderedSet.insert (fun lhs rhs => lhs.cKnobs.less rhs.cKnobs) newEntry self.vPast }

/-- The entry is older than the interval, in counters of 64 bits. -/
def outdated (self : InternodeOptimizer F) (entry : ParetoEntry F) : Bool :=
  (self.uHistoryTick + 2 ^ 64 - entry.uAtTick) % 2 ^ 64 > self.uHistoryInterval

/-- `internode_optimizer_t::try_forget`. -/
def tryForget (self : InternodeOptimizer F) : InternodeOptimizer F :=
  { self with
    sForgotten := OrderedSet.insertAll InoKnobs.less ParetoEntry.cKnobs
      (self.vPast.filter self.outdated) self.sForgotten
    vPast := self.vPast.filter fun entry => !self.outdated entry }

/-! ## Exploration -/

/-- The generation of novel configurations in `explore_configurations`. -/
structure Generation where
  /-- `v_explore_logistics`. -/
  vExploreLogistics : List Exploration
  /-- `may_find_new`. -/
  mayFindNew : Bool
  /-- `remaining`. -/
  remaining : Nat
  /-- `s_explore`. -/
  sExplore : List InoKnobs

/-- The loop over the generators, as far as it has not passed them yet. -/
def Generation.round (mayFindNew : Bool) (remaining : Nat) (sExplore : List InoKnobs) :
    (vExploreLogistics : List Exploration) → Generation
  | [] => ⟨[], mayFindNew, remaining, sExplore⟩
  | it :: rest =>
    if it.bExplored = false then
      let (knobs, it) := it.getNext
      let sExplore := OrderedSet.insert InoKnobs.less knobs sExplore
      let mayFindNew := mayFindNew || !it.bExplored
      let remaining := remaining - 1
      if remaining = 0 then ⟨it :: rest, mayFindNew, remaining, sExplore⟩
      else
        let result := round mayFindNew remaining sExplore rest
        { result with vExploreLogistics := it :: result.vExploreLogistics }
    else
      let result := round mayFindNew remaining sExplore rest
      { result with vExploreLogistics := it :: result.vExploreLogistics }

/-- The loop that generates novel configurations; `fuel` bounds its rounds. -/
def Generation.rounds : (fuel : Nat) → Generation → Generation
  | 0, self => self
  | fuel + 1, self =>
    if self.mayFindNew ∧ self.remaining > 0 then
      rounds fuel (round false self.remaining self.sExplore self.vExploreLogistics)
    else self

/-- The first part of `explore_configurations`, in which novel configurations are generated. -/
def generated (self : InternodeOptimizer F) : Generation :=
  Generation.rounds (self.vExploreLogistics.length + 1)
    { vExploreLogistics := self.vExploreLogistics
      mayFindNew := self.vExploreLogistics.length > 0
      remaining := inoExplorationSoftLimit - self.sExplore.length
      sExplore := self.sExplore }

/-- `internode_optimizer_t::explore_configurations`. -/
def exploreConfigurations (self : InternodeOptimizer F) : InternodeOptimizer F :=
  if self.sExplore.length ≥ inoExplorationSoftLimit then self
  else
    let generation := self.generated
    -- the forgotten configurations fill what is left, and those of the history the rest
    let use := min self.sForgotten.length generation.remaining
    let remaining := generation.remaining - use
    let sExplore := OrderedSet.insertAll InoKnobs.less id (self.sForgotten.take use)
      generation.sExplore
    let use := min self.vPast.length remaining
    { self with
      vExploreLogistics := generation.vExploreLogistics
      sExplore := OrderedSet.insertAll InoKnobs.less ParetoEntry.cKnobs (self.vPast.take use)
        sExplore }

/-- `internode_optimizer_t::get_next_explore`, with the results of `std::rand`. -/
def getNextExplore (self : InternodeOptimizer F) (draws : List Nat) :
    Except DrawFault (InoKnobs × InternodeOptimizer F) := do
  let self := if self.sExplore.length = 0 then self.exploreConfigurations else self
  if self.sExplore.length > 0 then
    let ret ← randomElement self.sExplore draws
    return (ret, { self with sExplore := self.sExplore.erase ret })
  else
    let it ← randomElement self.vPast draws
    return (it.cKnobs, self)

/-! ## Decisions -/

/-- The first part of `get_node_configuration`, in which the history is updated. -/
def updateHistory (self : InternodeOptimizer F) (measureLoad measureTime measureEnergy : List F)
    (previousDecision : Option InoKnobs) : InternodeOptimizer F :=
  let previousDecision :=
    if previousDecision = none ∧ self.uChoices > 0 then some self.cLastChoice else previousDecision
  let self :=
    match previousDecision with
    | some previousDecision =>
      -- the parameters of `record_point` are in another order than these arguments
      self.recordPoint previousDecision measureLoad measureEnergy measureTime
    | none => self
  { self with uHistoryTick := (self.uHistoryTick + 1) % 2 ^ 64 }.tryForget

/-- The condition in `get_node_configuration` under which the next decision is an exploration. -/
def explores (self : InternodeOptimizer F) : Bool :=
  self.uChoices < inoExplorationPhaseSteps ||
    (self.uChoices > inoExplorationPhaseSteps &&
      (self.uChoices - inoExplorationPhaseSteps + 1) % (inoRandomEvery + 1) = 0)

section Decisions

variable [NatCast F] [Add F] [Div F] [LT F] [DecidableLT F]

/-- The second part of `get_node_configuration`, in which the next configuration is chosen. -/
def choose (sort : StdSort (ParetoEntry F)) (beyond : F) (self : InternodeOptimizer F)
    (draws : List Nat) : Except DrawFault (InoKnobs × InternodeOptimizer F) :=
  if self.explores then self.getNextExplore draws
  else do return (← ParetoEntry.getBest sort beyond self.vPast draws, self)

/-- `internode_optimizer_t::get_node_configuration`, with the results of `std::rand`. -/
def getNodeConfiguration (sort : StdSort (ParetoEntry F)) (beyond : F) (self : InternodeOptimizer F)
    (measureLoad measureTime measureEnergy : List F) (previousDecision : Option InoKnobs)
    (draws : List Nat) : Except DrawFault (InoKnobs × InternodeOptimizer F) := do
  let self := self.updateHistory measureLoad measureTime measureEnergy previousDecision
  let (choice, self) ← self.choose sort beyond draws
  return (choice,
    { self with cLastChoice := choice, uChoices := (self.uChoices + 1) % 2 ^ 64 })

/-- The vectors of measurements and the random numbers of a call. -/
structure Call (F : Type) where
  /-- `measure_load`. -/
  measureLoad : List F
  /-- `measure_time`. -/
  measureTime : List F
  /-- `measure_energy`. -/
  measureEnergy : List F
  /-- The results of `std::rand`. -/
  draws : List Nat

/-- `get_node_configuration`, where the previous decision is left to the optimizer. -/
def nextDecision (sort : StdSort (ParetoEntry F)) (beyond : F) (self : InternodeOptimizer F)
    (call : Call F) : Except DrawFault (InoKnobs × InternodeOptimizer F) :=
  self.getNodeConfiguration sort beyond call.measureLoad call.measureTime call.measureEnergy none
    call.draws

/-- The calls of `get_node_configuration`. -/
def deciding (sort : StdSort (ParetoEntry F)) (beyond : F) (nodes lower upper interval : Nat) :
    System (InternodeOptimizer F) (Call F) where
  start := create nodes lower upper interval
  step s call s' := ∃ knobs, s.nextDecision sort beyond call = .ok (knobs, s')

/-- The next decision is a number of nodes in a range, no random element of an empty container is
drawn for it, and the best configuration is computed from a history that is not empty. -/
structure Decides (sort : StdSort (ParetoEntry F)) (beyond : F) (first last : Nat)
    (s : InternodeOptimizer F) : Prop where
  /-- The decision lies in the range. -/
  inRange : ∀ (call : Call F) (knobs : InoKnobs) (s' : InternodeOptimizer F),
    s.nextDecision sort beyond call = .ok (knobs, s') → first ≤ knobs.uNodes ∧ knobs.uNodes ≤ last
  /-- No container from which an element is drawn is empty. -/
  filled : ∀ call : Call F, s.nextDecision sort beyond call ≠ .error .emptyContainer
  /-- The best configuration is that of a history. -/
  history : ∀ measureLoad measureTime measureEnergy : List F,
    let s := s.updateHistory measureLoad measureTime measureEnergy none
    s.explores = false → s.vPast ≠ []

end Decisions

/-! ## Novel configurations -/

namespace Generation

/-- A generator that has been asked has no further configuration. -/
theorem mayFindNew_round (mayFindNew : Bool) (remaining : Nat) (sExplore : List InoKnobs)
    (logistics : List Exploration) :
    (round mayFindNew remaining sExplore logistics).mayFindNew = mayFindNew := by
  induction logistics generalizing mayFindNew remaining sExplore with
  | nil => rfl
  | cons it rest ih =>
    rw [round]
    split
    · have asked : (mayFindNew || !it.getNext.2.bExplored) = mayFindNew := Bool.or_false _
      dsimp only
      rw [asked]
      split
      · rfl
      · exact ih _ _ _
    · exact ih _ _ _

/-- One round suffices. -/
theorem rounds_eq (fuel : Nat) (self : Generation) : rounds (fuel + 1) self =
    if self.mayFindNew ∧ self.remaining > 0 then
      round false self.remaining self.sExplore self.vExploreLogistics
    else self := by
  have ended (fuel : Nat) (self : Generation) (nothing : self.mayFindNew = false) :
      rounds fuel self = self := by
    cases fuel with
    | zero => rfl
    | succ fuel => rw [rounds, if_neg (by simp [nothing])]
  rw [rounds, ended _ _ (mayFindNew_round _ _ _ _)]

/-- What holds of the candidates and of the generators holds of them after a round. -/
theorem round_all {P : Nat → Prop} (mayFindNew : Bool) (remaining : Nat) {sExplore : List InoKnobs}
    {logistics : List Exploration} (candidates : ∀ knobs ∈ sExplore, P knobs.uNodes)
    (generators : ∀ it ∈ logistics, P it.uNodes) :
    (∀ knobs ∈ (round mayFindNew remaining sExplore logistics).sExplore, P knobs.uNodes) ∧
      ∀ it ∈ (round mayFindNew remaining sExplore logistics).vExploreLogistics, P it.uNodes := by
  induction logistics generalizing mayFindNew remaining sExplore with
  | nil => exact ⟨candidates, generators⟩
  | cons it rest ih =>
    have here := generators it List.mem_cons_self
    have behind := fun it found => generators it (List.mem_cons_of_mem _ found)
    have added : ∀ knobs ∈ OrderedSet.insert InoKnobs.less it.getNext.1 sExplore,
        P knobs.uNodes := by
      intro knobs found
      rcases OrderedSet.mem_of_mem_insert found with rfl | found
      · exact here
      · exact candidates knobs found
    rw [round]
    split
    · dsimp only
      split
      · exact ⟨added, List.forall_mem_cons.mpr ⟨here, behind⟩⟩
      · obtain ⟨explored, rest⟩ := ih (mayFindNew || !it.getNext.2.bExplored) (remaining - 1) added
          behind
        exact ⟨explored, List.forall_mem_cons.mpr ⟨here, rest⟩⟩
    · obtain ⟨explored, rest⟩ := ih mayFindNew remaining candidates behind
      exact ⟨explored, List.forall_mem_cons.mpr ⟨here, rest⟩⟩

/-- A round removes no candidate. -/
theorem round_ne_nil (mayFindNew : Bool) (remaining : Nat) {sExplore : List InoKnobs}
    (logistics : List Exploration) (nonempty : sExplore ≠ []) :
    (round mayFindNew remaining sExplore logistics).sExplore ≠ [] := by
  induction logistics generalizing mayFindNew remaining sExplore with
  | nil => exact nonempty
  | cons it rest ih =>
    rw [round]
    split
    · dsimp only
      split
      · exact OrderedSet.insert_ne_nil _ _ _
      · exact ih _ _ (OrderedSet.insert_ne_nil _ _ _)
    · exact ih _ _ nonempty

/-- A round finds a candidate, unless there was nothing to find. -/
theorem round_fills (mayFindNew : Bool) (remaining : Nat) (sExplore : List InoKnobs)
    (logistics : List Exploration) :
    (round mayFindNew remaining sExplore logistics).sExplore ≠ [] ∨
      (round mayFindNew remaining sExplore logistics).remaining = remaining ∧
        ∀ it ∈ logistics, it.bExplored = true := by
  induction logistics generalizing mayFindNew remaining sExplore with
  | nil => exact Or.inr ⟨rfl, fun it found => absurd found List.not_mem_nil⟩
  | cons it rest ih =>
    rw [round]
    split
    · dsimp only
      split
      · exact Or.inl (OrderedSet.insert_ne_nil _ _ _)
      · exact Or.inl (round_ne_nil _ _ _ (OrderedSet.insert_ne_nil _ _ _))
    · rename_i explored
      refine (ih mayFindNew remaining sExplore).imp_right fun nothing => ⟨nothing.1, ?_⟩
      intro other found
      rcases List.mem_cons.mp found with rfl | found
      · simpa using explored
      · exact nothing.2 other found

end Generation

/-! ## Candidates -/

variable {P : Nat → Prop} {s : InternodeOptimizer F}

/-- All configurations among which the optimizer chooses have a property. -/
structure Candidates (P : Nat → Prop) (s : InternodeOptimizer F) : Prop where
  /-- Those of the history. -/
  past : ∀ entry ∈ s.vPast, P entry.cKnobs.uNodes
  /-- Those that have been forgotten. -/
  forgotten : ∀ knobs ∈ s.sForgotten, P knobs.uNodes
  /-- Those that are to be explored. -/
  explore : ∀ knobs ∈ s.sExplore, P knobs.uNodes
  /-- Those that have never been tried. -/
  logistics : ∀ it ∈ s.vExploreLogistics, P it.uNodes

/-- There is a configuration to explore. -/
def Supplied (s : InternodeOptimizer F) : Prop :=
  (∃ it ∈ s.vExploreLogistics, it.bExplored = false) ∨ s.sForgotten ≠ [] ∨ s.vPast ≠ []

/-- The configuration of a recorded point becomes one of the history. -/
theorem Candidates.recordPoint (candidates : s.Candidates P) {knobs : InoKnobs}
    (decided : P knobs.uNodes) (measureLoad measureTime measureEnergy : List F) :
    (s.recordPoint knobs measureLoad measureTime measureEnergy).Candidates P where
  past entry found := by
    unfold InternodeOptimizer.recordPoint at found
    dsimp only at found
    split at found
    · obtain ⟨it, before, same⟩ := List.mem_map.mp found
      split at same
      · rw [← same]
        exact decided
      · rw [← same]
        exact candidates.past it before
    · rcases OrderedSet.mem_of_mem_insert found with rfl | before
      · exact decided
      · exact candidates.past entry before
  forgotten := candidates.forgotten
  explore := candidates.explore
  logistics := candidates.logistics

/-- A recorded point is in the history, with the time of the record. -/
theorem mem_recordPoint_self (s : InternodeOptimizer F) (knobs : InoKnobs)
    (measureLoad measureTime measureEnergy : List F) :
    ⟨s.uHistoryTick, knobs, measureLoad, measureTime, measureEnergy⟩ ∈
      (s.recordPoint knobs measureLoad measureTime measureEnergy).vPast := by
  unfold recordPoint
  dsimp only
  split
  · rename_i known
    obtain ⟨it, found, same⟩ := List.any_eq_true.mp known
    exact List.mem_map.mpr ⟨it, found, if_pos (of_decide_eq_true same)⟩
  · rename_i novel
    let newEntry : ParetoEntry F :=
      ⟨s.uHistoryTick, knobs, measureLoad, measureTime, measureEnergy⟩
    rcases OrderedSet.mem_insert_or_equivalent
      (fun lhs rhs : ParetoEntry F => lhs.cKnobs.less rhs.cKnobs) newEntry s.vPast with
      added | ⟨it, found, before, behind⟩
    · exact added
    · have same : it.cKnobs = knobs := by
        unfold InoKnobs.less at before behind
        have nodes : it.cKnobs.uNodes = knobs.uNodes :=
          Nat.le_antisymm (Nat.not_lt.mp (of_decide_eq_false before))
            (Nat.not_lt.mp (of_decide_eq_false behind))
        exact congrArg InoKnobs.mk nodes
      exact absurd (List.any_eq_true.mpr ⟨it, found, decide_eq_true same⟩) novel

/-- Forgetting moves configurations from the history to the forgotten ones. -/
theorem Candidates.tryForget (candidates : s.Candidates P) : s.tryForget.Candidates P where
  past entry found := candidates.past entry (List.mem_filter.mp found).1
  forgotten knobs found := by
    rcases OrderedSet.mem_of_mem_insertAll found with ⟨entry, old, rfl⟩ | before
    · exact candidates.past entry (List.mem_filter.mp old).1
    · exact candidates.forgotten knobs before
  explore := candidates.explore
  logistics := candidates.logistics

/-- Forgetting leaves something to explore. -/
theorem Supplied.tryForget (supplied : s.Supplied) : s.tryForget.Supplied := by
  rcases supplied with novel | forgotten | past
  · exact Or.inl novel
  · obtain ⟨knobs, found⟩ := List.exists_mem_of_ne_nil _ forgotten
    exact Or.inr (Or.inl (List.ne_nil_of_mem (OrderedSet.mem_insertAll_of_mem found)))
  · obtain ⟨entry, found⟩ := List.exists_mem_of_ne_nil _ past
    by_cases old : s.outdated entry = true
    · have moved : s.vPast.filter s.outdated ≠ [] :=
        List.ne_nil_of_mem (List.mem_filter.mpr ⟨found, old⟩)
      exact Or.inr (Or.inl (OrderedSet.insertAll_ne_nil (Or.inr moved)))
    · refine Or.inr (Or.inr (List.ne_nil_of_mem (List.mem_filter.mpr ⟨found, ?_⟩)))
      simpa using old

/-- The generation consists of configurations that were known. -/
theorem generated_all (candidates : s.Candidates P) :
    (∀ knobs ∈ s.generated.sExplore, P knobs.uNodes) ∧
      ∀ it ∈ s.generated.vExploreLogistics, P it.uNodes := by
  unfold generated
  rw [Generation.rounds_eq]
  split
  · exact Generation.round_all _ _ candidates.explore candidates.logistics
  · exact ⟨candidates.explore, candidates.logistics⟩

/-- The generation finds a candidate, unless there was nothing to find. -/
theorem generated_fills (empty : s.sExplore = []) : s.generated.sExplore ≠ [] ∨
    s.generated.remaining = inoExplorationSoftLimit ∧
      ∀ it ∈ s.vExploreLogistics, it.bExplored = true := by
  unfold generated
  rw [Generation.rounds_eq, empty]
  split
  · exact Generation.round_fills _ _ _ _
  · rename_i nothing
    refine Or.inr ⟨rfl, fun it found => ?_⟩
    have nonempty : s.vExploreLogistics.length > 0 := List.length_pos_of_mem found
    exact absurd ⟨decide_eq_true nonempty, Nat.succ_pos 9⟩ nothing

/-- The configurations to explore are those that were known. -/
theorem Candidates.exploreConfigurations (candidates : s.Candidates P) :
    s.exploreConfigurations.Candidates P := by
  obtain ⟨novel, generators⟩ := generated_all candidates
  unfold InternodeOptimizer.exploreConfigurations
  split
  · exact candidates
  · refine ⟨candidates.past, candidates.forgotten, fun knobs found => ?_, generators⟩
    rcases OrderedSet.mem_of_mem_insertAll found with ⟨entry, taken, rfl⟩ | found
    · exact candidates.past entry (List.mem_of_mem_take taken)
    · rcases OrderedSet.mem_of_mem_insertAll found with ⟨old, taken, rfl⟩ | found
      · exact candidates.forgotten knobs (List.mem_of_mem_take taken)
      · exact novel knobs found

/-- When there is a configuration to explore, one is found. -/
theorem exploreConfigurations_fills (empty : s.sExplore = []) (supplied : s.Supplied) :
    s.exploreConfigurations.sExplore ≠ [] := by
  have few : ¬ s.sExplore.length ≥ inoExplorationSoftLimit := by
    rw [empty]
    decide
  unfold exploreConfigurations
  rw [if_neg few]
  dsimp only
  rcases generated_fills empty with novel | ⟨all, explored⟩
  · exact OrderedSet.insertAll_ne_nil (Or.inl (OrderedSet.insertAll_ne_nil (Or.inl novel)))
  · rw [all]
    by_cases forgotten : s.sForgotten = []
    · have past : s.vPast ≠ [] := by
        rcases supplied with ⟨it, found, novel⟩ | some | past
        · exact absurd (explored it found) (by simp [novel])
        · exact absurd forgotten some
        · exact past
      apply OrderedSet.insertAll_ne_nil
      right
      rw [forgotten]
      rw [Ne, List.take_eq_nil_iff]
      unfold inoExplorationSoftLimit
      simp [past]
    · apply OrderedSet.insertAll_ne_nil
      left
      apply OrderedSet.insertAll_ne_nil
      right
      rw [Ne, List.take_eq_nil_iff]
      unfold inoExplorationSoftLimit
      simp [forgotten]

/-- An exploration leaves the history and the counters unchanged. -/
theorem exploreConfigurations_keeps (s : InternodeOptimizer F) :
    s.exploreConfigurations.vPast = s.vPast ∧ s.exploreConfigurations.uChoices = s.uChoices ∧
      s.exploreConfigurations.uHistoryInterval = s.uHistoryInterval ∧
      s.exploreConfigurations.uHistoryTick = s.uHistoryTick := by
  unfold exploreConfigurations
  split <;> exact ⟨rfl, rfl, rfl, rfl⟩

/-- What a choice amounts to. -/
structure Chosen (P : Nat → Prop) (s : InternodeOptimizer F)
    (result : InoKnobs × InternodeOptimizer F) : Prop where
  /-- The configuration has the property. -/
  decided : P result.1.uNodes
  /-- All configurations have the property. -/
  candidates : result.2.Candidates P
  /-- The history stays. -/
  past : result.2.vPast = s.vPast
  /-- The decision is not counted yet. -/
  choices : result.2.uChoices = s.uChoices
  /-- The interval stays. -/
  interval : result.2.uHistoryInterval = s.uHistoryInterval
  /-- The time stays. -/
  tick : result.2.uHistoryTick = s.uHistoryTick

/-- A candidate is explored and removed. -/
theorem Candidates.chosen (candidates : s.Candidates P) {ret : InoKnobs}
    (found : ret ∈ s.sExplore) :
    Chosen P s (ret, { s with sExplore := s.sExplore.erase ret }) where
  decided := candidates.explore ret found
  candidates :=
    { past := candidates.past
      forgotten := candidates.forgotten
      explore := fun knobs kept => candidates.explore knobs (List.mem_of_mem_erase kept)
      logistics := candidates.logistics }
  past := rfl
  choices := rfl
  interval := rfl
  tick := rfl

/-- A configuration is explored, whatever is drawn. -/
theorem draws_getNextExplore (candidates : s.Candidates P) (supplied : s.Supplied)
    (draws : List Nat) : Draws (Chosen P s) (s.getNextExplore draws) := by
  unfold getNextExplore
  dsimp only
  by_cases empty : s.sExplore.length = 0
  · have fills := exploreConfigurations_fills (List.length_eq_zero_iff.mp empty) supplied
    rw [if_pos empty, if_pos (List.length_pos_iff.mpr fills)]
    refine (draws_randomElement fills draws).bind fun ret found => .pure ?_
    obtain ⟨past, choices, interval, tick⟩ := s.exploreConfigurations_keeps
    have chosen := candidates.exploreConfigurations.chosen found
    exact ⟨chosen.decided, chosen.candidates, past, choices, interval, tick⟩
  · rw [if_neg empty, if_pos (Nat.pos_of_ne_zero empty)]
    have nonempty : s.sExplore ≠ [] := fun nothing => empty (List.length_eq_zero_iff.mpr nothing)
    exact (draws_randomElement nonempty draws).bind fun ret found => .pure (candidates.chosen found)

/-! ## Runs -/

/-- What every call finds. -/
structure Ready (P : Nat → Prop) (s : InternodeOptimizer F) : Prop where
  /-- All configurations have the property. -/
  candidates : s.Candidates P
  /-- So has the last decision. -/
  lastChoice : s.uChoices > 0 → P s.cLastChoice.uNodes
  /-- Before the first decision there is a configuration to explore. -/
  supplied : s.uChoices = 0 → s.Supplied
  /-- What has just been recorded is not forgotten. -/
  interval : 1 ≤ s.uHistoryInterval
  /-- The time is a counter of 64 bits. -/
  tick : s.uHistoryTick < 2 ^ 64

/-- What a call finds after it has updated the history. -/
structure Updated (P : Nat → Prop) (s s' : InternodeOptimizer F) : Prop where
  /-- All configurations have the property. -/
  candidates : s'.Candidates P
  /-- There is a configuration to explore. -/
  supplied : s'.Supplied
  /-- Once a decision has been made, there is a history. -/
  past : s.uChoices > 0 → s'.vPast ≠ []
  /-- The decisions are not counted yet. -/
  choices : s'.uChoices = s.uChoices
  /-- The interval stays. -/
  interval : s'.uHistoryInterval = s.uHistoryInterval
  /-- The time is a counter of 64 bits. -/
  tick : s'.uHistoryTick < 2 ^ 64

/-- A call that follows a decision records it, and does not forget it at once. -/
theorem Ready.updated (ready : s.Ready P) (measureLoad measureTime measureEnergy : List F) :
    Updated P s (s.updateHistory measureLoad measureTime measureEnergy none) := by
  unfold updateHistory
  have tick : (s.uHistoryTick + 1) % 2 ^ 64 < 2 ^ 64 := Nat.mod_lt _ (by decide)
  by_cases first : s.uChoices > 0
  · simp only [first, and_self, if_true]
    let recorded := s.recordPoint s.cLastChoice measureLoad measureEnergy measureTime
    have candidates : recorded.Candidates P :=
      ready.candidates.recordPoint (ready.lastChoice first) _ _ _
    have found := s.mem_recordPoint_self s.cLastChoice measureLoad measureEnergy measureTime
    let ticked := { recorded with uHistoryTick := (s.uHistoryTick + 1) % 2 ^ 64 }
    have recent : ticked.outdated
        ⟨s.uHistoryTick, s.cLastChoice, measureLoad, measureEnergy, measureTime⟩ = false := by
      have interval := ready.interval
      have earlier := ready.tick
      apply decide_eq_false
      show ¬ ((s.uHistoryTick + 1) % 2 ^ 64 + 2 ^ 64 - s.uHistoryTick) % 2 ^ 64 > s.uHistoryInterval
      omega
    have past : ticked.tryForget.vPast ≠ [] := by
      refine List.ne_nil_of_mem (List.mem_filter.mpr ⟨found, ?_⟩)
      rw [recent]
      rfl
    have moved : ticked.Candidates P :=
      ⟨candidates.past, candidates.forgotten, candidates.explore, candidates.logistics⟩
    exact ⟨moved.tryForget, Or.inr (Or.inr past), fun _ => past, rfl, rfl, tick⟩
  · simp only [first, and_false, if_false]
    let ticked := { s with uHistoryTick := (s.uHistoryTick + 1) % 2 ^ 64 }
    have moved : ticked.Candidates P := ⟨ready.candidates.past, ready.candidates.forgotten,
      ready.candidates.explore, ready.candidates.logistics⟩
    have supplied : ticked.Supplied := ready.supplied (Nat.eq_zero_of_not_pos first)
    exact ⟨moved.tryForget, supplied.tryForget, fun later => absurd later first, rfl, rfl, tick⟩

/-- The best configuration is only computed after decisions. -/
theorem choices_of_best (best : s.explores = false) : s.uChoices > 0 := by
  unfold explores inoExplorationPhaseSteps at best
  by_contra none
  have zero : s.uChoices = 0 := Nat.eq_zero_of_not_pos none
  rw [zero] at best
  exact absurd best (by decide)

/-- An optimizer with a range of nodes that is not empty is ready. -/
theorem ready_create {nodes lower upper interval : Nat} (range : max 1 lower ≤ min nodes upper)
    (forgets : 1 ≤ interval) : (create nodes lower upper interval : InternodeOptimizer F).Ready
      fun n => max 1 lower ≤ n ∧ n ≤ min nodes upper where
  candidates := by
    refine ⟨fun _ found => absurd found List.not_mem_nil, fun _ found => absurd found
      List.not_mem_nil, fun _ found => absurd found List.not_mem_nil, fun it found => ?_⟩
    obtain ⟨n, inside, rfl⟩ := List.mem_map.mp found
    have bounds := List.mem_range'_1.mp inside
    show max 1 lower ≤ n ∧ n ≤ min nodes upper
    omega
  lastChoice none := absurd none (Nat.lt_irrefl 0)
  supplied _ := by
    refine Or.inl ⟨⟨max 1 lower, false⟩, List.mem_map_of_mem (List.mem_range'_1.mpr ?_), rfl⟩
    omega
  interval := forgets
  tick := Nat.two_pow_pos 64

variable [NatCast F] [Add F] [Div F] [LT F] [DecidableLT F] {sort : StdSort (ParetoEntry F)}
  {beyond : F}

/-- The next decision has the property, and the optimizer is ready for the one after it. -/
theorem Ready.nextDecision (ready : s.Ready P) (call : Call F) :
    Draws (fun result => P result.1.uNodes ∧ result.2.Ready P)
      (s.nextDecision sort beyond call) := by
  have updated := ready.updated call.measureLoad call.measureTime call.measureEnergy
  unfold InternodeOptimizer.nextDecision getNodeConfiguration
  generalize s.updateHistory call.measureLoad call.measureTime call.measureEnergy none =
    t at updated
  have chosen : Draws (Chosen P t) (t.choose sort beyond call.draws) := by
    unfold choose
    apply Ensures.ite
    · intro _
      exact draws_getNextExplore updated.candidates updated.supplied call.draws
    · intro best
      have later : t.uChoices > 0 := choices_of_best (Bool.eq_false_iff.mpr best)
      refine (ParetoEntry.draws_getBest (updated.past (updated.choices ▸ later)) call.draws).bind ?_
      rintro _ ⟨entry, found, rfl⟩
      exact ⟨updated.candidates.past entry found, updated.candidates, rfl, rfl, rfl, rfl⟩
  apply chosen.bind
  rintro ⟨choice, after⟩ ⟨decided, candidates, past, choices, interval, tick⟩
  dsimp only at candidates past choices interval tick
  refine .pure ⟨decided, ?_, fun _ => decided, fun wrapped => ?_, ?_, ?_⟩
  · exact ⟨candidates.past, candidates.forgotten, candidates.explore, candidates.logistics⟩
  · have later : s.uChoices > 0 := by
      have count : (after.uChoices + 1) % 2 ^ 64 = 0 := wrapped
      rw [choices, updated.choices] at count
      by_contra none
      rw [Nat.eq_zero_of_not_pos none] at count
      exact absurd count (by decide)
    have nonempty : after.vPast ≠ [] := by
      rw [past]
      exact updated.past later
    exact Or.inr (Or.inr nonempty)
  · show 1 ≤ after.uHistoryInterval
    rw [interval, updated.interval]
    exact ready.interval
  · show after.uHistoryTick < 2 ^ 64
    rw [tick]
    exact updated.tick

/-- In every run from a range of nodes that is not empty, with an interval of at least one, every
decision lies in the range, no random element of an empty container is drawn, and the best
configuration is computed from a history that is not empty. -/
theorem decides_of_run {nodes lower upper interval : Nat} (range : max 1 lower ≤ min nodes upper)
    (forgets : 1 ≤ interval) {history : List (InternodeOptimizer F × Call F)}
    (run : (deciding sort beyond nodes lower upper interval).Run history s) :
    s.Decides sort beyond (max 1 lower) (min nodes upper) := by
  have ready : s.Ready fun n => max 1 lower ≤ n ∧ n ≤ min nodes upper := by
    refine run.invariant (ready_create range forgets) ?_
    rintro s call s' ready ⟨knobs, decided⟩
    have next := @Ready.nextDecision F _ s _ _ _ _ _ sort beyond ready call
    rw [decided] at next
    exact next.2
  constructor
  · intro call knobs s' decided
    have next := @Ready.nextDecision F _ s _ _ _ _ _ sort beyond ready call
    rw [decided] at next
    exact next.1
  · intro call failed
    have next := @Ready.nextDecision F _ s _ _ _ _ _ sort beyond ready call
    rw [failed] at next
    exact next rfl
  · intro measureLoad measureTime measureEnergy s best
    have updated := ready.updated measureLoad measureTime measureEnergy
    apply updated.past
    rw [← updated.choices]
    exact choices_of_best best

/-- An optimizer for one or two of four nodes that explores one of them, the other, and the first
one again, and that then decides for the only one of its history. -/
theorem decides_of_run_four : ∃ (history : List (InternodeOptimizer ℚ × Call ℚ))
    (s : InternodeOptimizer ℚ), (deciding .insertion 0 4 1 2 1).Run history s ∧
      history.length = 4 ∧ s.uChoices = 4 ∧ s.Decides .insertion 0 1 2 := by
  let call : Call ℚ := ⟨[1, 1], [2, 3], [4, 5], [0]⟩
  let entry (tick nodes : Nat) : ParetoEntry ℚ := ⟨tick, ⟨nodes⟩, [1, 1], [4, 5], [2, 3]⟩
  let asked : List Exploration := [⟨1, true⟩, ⟨2, true⟩]
  let first : InternodeOptimizer ℚ := ⟨⟨1⟩, 1, 2, 1, 1, 1, [], asked, [], [⟨2⟩]⟩
  let second : InternodeOptimizer ℚ := ⟨⟨2⟩, 1, 2, 2, 1, 2, [entry 1 1], asked, [], []⟩
  let third : InternodeOptimizer ℚ := ⟨⟨1⟩, 1, 2, 3, 1, 3, [entry 2 2], asked, [⟨1⟩], [⟨2⟩]⟩
  let fourth : InternodeOptimizer ℚ := ⟨⟨1⟩, 1, 2, 4, 1, 4, [entry 3 1], asked, [⟨1⟩, ⟨2⟩], [⟨2⟩]⟩
  have one : (deciding .insertion 0 4 1 2 1).step (create 4 1 2 1) call first :=
    ⟨⟨1⟩, by decide +kernel⟩
  have two : (deciding .insertion 0 4 1 2 1).step first call second :=
    ⟨⟨2⟩, by decide +kernel⟩
  have three : (deciding .insertion 0 4 1 2 1).step second call third :=
    ⟨⟨1⟩, by decide +kernel⟩
  have four : (deciding .insertion 0 4 1 2 1).step third call fourth :=
    ⟨⟨1⟩, by decide +kernel⟩
  have run := (((System.Run.start.step one).step two).step three).step four
  exact ⟨_, _, run, rfl, rfl, decides_of_run (by decide) (Nat.le_refl 1) run⟩

end InternodeOptimizer

end AllScale
