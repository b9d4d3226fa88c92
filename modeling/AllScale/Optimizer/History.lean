import Mathlib.Logic.Function.Basic
import AllScale.Optimizer.InternodeOptimizer

/-!
# What the history stores

Every call of `get_node_configuration` measures the effects of a decision: the one that it is given,
or else the one of the call before. The history should store, for every configuration, what the
latest call measured that followed a decision for it. `record_point` takes the load, the time and
the energy in this order, but is called with the energy before the time.
-/

namespace AllScale

open Transition

namespace InternodeOptimizer

variable {F : Type}

/-- The arguments of a call, with the decision that is passed explicitly. -/
structure Inquiry (F : Type) extends Call F where
  /-- `previous_decision`. -/
  previousDecision : Option InoKnobs

/-- The decision that a call follows, after the decision of the call before. -/
def Inquiry.follows (inquiry : Inquiry F) (lastDecision : Option InoKnobs) : Option InoKnobs :=
  if inquiry.previousDecision = none then lastDecision else inquiry.previousDecision

/-- An entry stores the vectors of a call, each in its own field. -/
structure Stores (entry : ParetoEntry F) (inquiry : Inquiry F) : Prop where
  /-- The load. -/
  load : entry.vLoad = inquiry.measureLoad
  /-- The time. -/
  time : entry.vTime = inquiry.measureTime
  /-- The energy. -/
  energy : entry.vEnergy = inquiry.measureEnergy

/-- An optimizer, and what an observer of its calls remembers. -/
structure Observed (F : Type) where
  /-- The optimizer. -/
  optimizer : InternodeOptimizer F
  /-- The decision of the last call. -/
  lastDecision : Option InoKnobs
  /-- The latest call that followed a decision for a configuration. -/
  latest : InoKnobs → Option (Inquiry F)

/-- An entry is not too old yet for the history after the next call. -/
def retains (s : InternodeOptimizer F) (entry : ParetoEntry F) : Bool :=
  !{ s with uHistoryTick := (s.uHistoryTick + 1) % 2 ^ 64 }.outdated entry

namespace Observed

/-- What the observer remembers of a call. -/
def note (o : Observed F) (inquiry : Inquiry F) (decision : InoKnobs)
    (optimizer : InternodeOptimizer F) : Observed F where
  optimizer := optimizer
  lastDecision := some decision
  latest :=
    match inquiry.follows o.lastDecision with
    | none => o.latest
    | some followed => Function.update o.latest followed (some inquiry)

/-- Every entry of the history stores the vectors of the latest call that followed a decision for
its configuration. -/
def Faithful (o : Observed F) : Prop :=
  ∀ entry ∈ o.optimizer.vPast, ∃ inquiry,
    o.latest entry.cKnobs = some inquiry ∧ Stores entry inquiry

/-- A call does no harm to the history: where it follows a decision and is recorded, its times are
its energies, or nothing is kept; and where it is not recorded since the counter of the decisions is
zero, no other entry for the decision is kept. -/
def Harmless (o : Observed F) (inquiry : Inquiry F) : Prop :=
  ∀ decision, inquiry.follows o.lastDecision = some decision →
    if inquiry.previousDecision = none ∧ o.optimizer.uChoices = 0 then
      ∀ entry ∈ o.optimizer.vPast, entry.cKnobs = decision →
        o.optimizer.retains entry = true → Stores entry inquiry
    else o.optimizer.uHistoryInterval = 0 ∨ inquiry.measureTime = inquiry.measureEnergy

end Observed

section Observing

variable [NatCast F] [Add F] [Div F] [LT F] [DecidableLT F]

/-- The calls of `get_node_configuration`, observed. -/
def observing (sort : StdSort (ParetoEntry F)) (beyond : F) (nodes lower upper interval : Nat) :
    System (Observed F) (Inquiry F) where
  start := ⟨create nodes lower upper interval, none, fun _ => none⟩
  step o inquiry o' := ∃ decision optimizer,
    o.optimizer.getNodeConfiguration sort beyond inquiry.measureLoad inquiry.measureTime
      inquiry.measureEnergy inquiry.previousDecision inquiry.draws = .ok (decision, optimizer) ∧
    o' = o.note inquiry decision optimizer

end Observing

/-! ## The history after a call -/

variable {s : InternodeOptimizer F} {entry : ParetoEntry F}

/-- What is in the history once a point has been recorded: the new entry, and the entries for other
configurations. -/
theorem mem_recordPoint {knobs : InoKnobs} {load time energy : List F} :
    entry ∈ (s.recordPoint knobs load time energy).vPast ↔
      entry = ⟨s.uHistoryTick, knobs, load, time, energy⟩ ∨
        entry ∈ s.vPast ∧ entry.cKnobs ≠ knobs := by
  constructor
  · intro found
    unfold recordPoint at found
    dsimp only at found
    split at found
    · obtain ⟨it, before, same⟩ := List.mem_map.mp found
      split at same
      · exact Or.inl same.symm
      · rename_i other
        rw [← same]
        exact Or.inr ⟨before, other⟩
    · rename_i novel
      rcases OrderedSet.mem_of_mem_insert found with here | before
      · exact Or.inl here
      · refine Or.inr ⟨before, fun same => novel ?_⟩
        exact List.any_eq_true.mpr ⟨entry, before, decide_eq_true same⟩
  · rintro (here | ⟨before, other⟩)
    · rw [here]
      exact s.mem_recordPoint_self knobs load time energy
    · unfold recordPoint
      dsimp only
      split
      · exact List.mem_map.mpr ⟨entry, before, if_neg other⟩
      · exact OrderedSet.mem_insert_of_mem before

/-- An exploration leaves the history and the counters unchanged. -/
theorem getNextExplore_keeps {draws : List Nat} {choice : InoKnobs} {s' : InternodeOptimizer F}
    (explored : s.getNextExplore draws = .ok (choice, s')) :
    s'.vPast = s.vPast ∧ s'.uChoices = s.uChoices ∧
      s'.uHistoryInterval = s.uHistoryInterval ∧ s'.uHistoryTick = s.uHistoryTick := by
  have keeps := s.exploreConfigurations_keeps
  unfold getNextExplore at explored
  dsimp only at explored
  generalize searched : (if s.sExplore.length = 0 then s.exploreConfigurations else s) = t
    at explored
  have same : t.vPast = s.vPast ∧ t.uChoices = s.uChoices ∧
      t.uHistoryInterval = s.uHistoryInterval ∧ t.uHistoryTick = s.uHistoryTick := by
    rw [← searched]
    split
    · exact keeps
    · exact ⟨rfl, rfl, rfl, rfl⟩
  split at explored
  · cases drawn : randomElement t.sExplore draws with
    | error fault =>
      rw [drawn] at explored
      cases explored
    | ok ret =>
      rw [drawn] at explored
      cases explored
      exact same
  · cases drawn : randomElement t.vPast draws with
    | error fault =>
      rw [drawn] at explored
      cases explored
    | ok it =>
      rw [drawn] at explored
      cases explored
      exact same

/-- The history has one entry at most for every configuration. -/
def Distinct (s : InternodeOptimizer F) : Prop := (s.vPast.map ParetoEntry.cKnobs).Nodup

/-- Recording a point keeps the configurations distinct. -/
theorem Distinct.recordPoint (distinct : s.Distinct) (knobs : InoKnobs)
    (load time energy : List F) : (s.recordPoint knobs load time energy).Distinct := by
  unfold Distinct InternodeOptimizer.recordPoint at *
  dsimp only
  split
  · have same : (s.vPast.map fun it => if it.cKnobs = knobs then
        ⟨s.uHistoryTick, knobs, load, time, energy⟩ else it).map ParetoEntry.cKnobs =
          s.vPast.map ParetoEntry.cKnobs := by
      rw [List.map_map]
      refine List.map_congr_left fun it _ => ?_
      show (if it.cKnobs = knobs then _ else it).cKnobs = it.cKnobs
      split
      · rename_i here
        exact here.symm
      · rfl
    rw [same]
    exact distinct
  · rename_i novel
    rcases OrderedSet.insert_eq_or_perm (fun lhs rhs => lhs.cKnobs.less rhs.cKnobs)
      (⟨s.uHistoryTick, knobs, load, time, energy⟩ : ParetoEntry F) s.vPast with same | perm
    · rw [same]
      exact distinct
    · rw [(perm.map ParetoEntry.cKnobs).nodup_iff, List.map_cons, List.nodup_cons]
      refine ⟨fun found => novel ?_, distinct⟩
      obtain ⟨it, there, same⟩ := List.mem_map.mp found
      exact List.any_eq_true.mpr ⟨it, there, decide_eq_true same⟩

/-- Updating the history keeps the configurations distinct. -/
theorem Distinct.updateHistory (distinct : s.Distinct) (load time energy : List F)
    (previousDecision : Option InoKnobs) :
    (s.updateHistory load time energy previousDecision).Distinct := by
  have forgets {t : InternodeOptimizer F} (distinct : t.Distinct) : t.tryForget.Distinct :=
    distinct.sublist (List.filter_sublist.map _)
  unfold InternodeOptimizer.updateHistory
  dsimp only
  apply forgets
  split
  · exact distinct.recordPoint _ _ _ _
  · exact distinct

section Calls

variable [NatCast F] [Add F] [Div F] [LT F] [DecidableLT F] {sort : StdSort (ParetoEntry F)}
  {beyond : F}

/-- The history after a call is the updated one, and the decision is the one that is remembered. -/
theorem getNodeConfiguration_keeps {load time energy : List F} {previousDecision : Option InoKnobs}
    {draws : List Nat} {decision : InoKnobs} {s' : InternodeOptimizer F}
    (decided : s.getNodeConfiguration sort beyond load time energy previousDecision draws =
      .ok (decision, s')) :
    s'.vPast = (s.updateHistory load time energy previousDecision).vPast ∧
      s'.cLastChoice = decision ∧ s'.uHistoryInterval = s.uHistoryInterval ∧
      s'.uHistoryTick = (s.uHistoryTick + 1) % 2 ^ 64 := by
  have interval : (s.updateHistory load time energy previousDecision).uHistoryInterval =
      s.uHistoryInterval := by
    unfold updateHistory tryForget
    dsimp only
    split <;> rfl
  have tick : (s.updateHistory load time energy previousDecision).uHistoryTick =
      (s.uHistoryTick + 1) % 2 ^ 64 := by
    unfold updateHistory tryForget
    dsimp only
    split <;> rfl
  unfold getNodeConfiguration at decided
  generalize s.updateHistory load time energy previousDecision = t at decided interval tick ⊢
  dsimp only at decided
  cases chosen : t.choose sort beyond draws with
  | error fault =>
    rw [chosen] at decided
    cases decided
  | ok result =>
    obtain ⟨choice, after⟩ := result
    rw [chosen] at decided
    cases decided
    have kept : after.vPast = t.vPast ∧ after.uChoices = t.uChoices ∧
        after.uHistoryInterval = t.uHistoryInterval ∧ after.uHistoryTick = t.uHistoryTick := by
      unfold choose at chosen
      split at chosen
      · exact getNextExplore_keeps chosen
      · cases best : ParetoEntry.getBest sort beyond t.vPast draws with
        | error fault =>
          rw [best] at chosen
          cases chosen
        | ok knobs =>
          rw [best] at chosen
          cases chosen
          exact ⟨rfl, rfl, rfl, rfl⟩
    exact ⟨kept.1, rfl, kept.2.2.1.trans interval, kept.2.2.2.trans tick⟩

/-- In every run the history has distinct configurations. -/
theorem distinct_of_run {nodes lower upper interval : Nat}
    {history : List (Observed F × Inquiry F)} {o : Observed F}
    (run : (observing sort beyond nodes lower upper interval).Run history o) :
    o.optimizer.Distinct := by
  refine run.invariant (P := fun o => o.optimizer.Distinct) List.nodup_nil ?_
  rintro o inquiry o' distinct ⟨decision, optimizer, decided, rfl⟩
  have kept := (getNodeConfiguration_keeps decided).1
  show (optimizer.vPast.map ParetoEntry.cKnobs).Nodup
  rw [kept]
  exact distinct.updateHistory _ _ _ _

end Calls

/-- The decision for which a call records a point. -/
def recordedDecision (s : InternodeOptimizer F) (previousDecision : Option InoKnobs) :
    Option InoKnobs :=
  if previousDecision = none ∧ s.uChoices > 0 then some s.cLastChoice else previousDecision

/-- A call without a decision to record only forgets. -/
theorem vPast_of_notRecorded {previousDecision : Option InoKnobs}
    (absent : s.recordedDecision previousDecision = none) (load time energy : List F) :
    (s.updateHistory load time energy previousDecision).vPast = s.vPast.filter s.retains := by
  unfold recordedDecision at absent
  unfold updateHistory tryForget
  dsimp only
  rw [absent]
  rfl

/-- A call with a decision to record stores its energy as the time and its time as the energy. -/
theorem vPast_of_recorded {previousDecision : Option InoKnobs} {decision : InoKnobs}
    (recorded : s.recordedDecision previousDecision = some decision) (load time energy : List F) :
    (s.updateHistory load time energy previousDecision).vPast =
      (s.recordPoint decision load energy time).vPast.filter s.retains := by
  unfold recordedDecision at recorded
  unfold updateHistory tryForget
  dsimp only
  rw [recorded]
  rfl

/-- What has just been recorded is retained exactly if the interval is not zero. -/
theorem retains_new (tick : s.uHistoryTick < 2 ^ 64) (knobs : InoKnobs)
    (load time energy : List F) :
    s.retains ⟨s.uHistoryTick, knobs, load, time, energy⟩ = true ↔ s.uHistoryInterval ≠ 0 := by
  unfold retains outdated
  rw [Bool.not_eq_true', decide_eq_false_iff_not]
  show ¬ ((s.uHistoryTick + 1) % 2 ^ 64 + 2 ^ 64 - s.uHistoryTick) % 2 ^ 64 > s.uHistoryInterval ↔ _
  omega

/-! ## Runs -/

namespace Observed

variable {o o' : Observed F} {inquiry : Inquiry F}

/-- What the observer remembers fits to the optimizer. -/
structure Fits (o : Observed F) : Prop where
  /-- Before the first decision none is counted. -/
  first : o.lastDecision = none → o.optimizer.uChoices = 0
  /-- The optimizer has stored its last decision. -/
  last : ∀ decision, o.lastDecision = some decision → o.optimizer.cLastChoice = decision
  /-- The time is a counter of 64 bits. -/
  tick : o.optimizer.uHistoryTick < 2 ^ 64

/-- A call that records a point follows the decision that it is recorded for. -/
theorem Fits.follows_of_recorded (fits : o.Fits) {decision : InoKnobs}
    (recorded : o.optimizer.recordedDecision inquiry.previousDecision = some decision) :
    inquiry.follows o.lastDecision = some decision ∧
      ¬ (inquiry.previousDecision = none ∧ o.optimizer.uChoices = 0) := by
  unfold recordedDecision at recorded
  unfold Inquiry.follows
  by_cases passed : inquiry.previousDecision = none
  · by_cases counted : o.optimizer.uChoices > 0
    · rw [if_pos ⟨passed, counted⟩] at recorded
      rw [if_pos passed]
      refine ⟨?_, fun both => absurd both.2 (Nat.ne_of_gt counted)⟩
      cases decided : o.lastDecision with
      | none => exact absurd (fits.first decided) (Nat.ne_of_gt counted)
      | some last => rw [← recorded, fits.last last decided]
    · rw [if_neg fun both => counted both.2, passed] at recorded
      cases recorded
  · rw [if_neg fun both => passed both.1] at recorded
    rw [if_neg passed]
    exact ⟨recorded, fun both => passed both.1⟩

/-- Without a decision to record, none is passed and none is counted. -/
theorem of_notRecorded
    (absent : o.optimizer.recordedDecision inquiry.previousDecision = none) :
    inquiry.previousDecision = .none ∧ o.optimizer.uChoices = 0 := by
  unfold recordedDecision at absent
  split at absent
  · cases absent
  · rename_i uncounted
    exact ⟨absent, Nat.eq_zero_of_not_pos fun counted => uncounted ⟨absent, counted⟩⟩

/-- A call that records a point keeps the history faithful exactly if it does no harm. -/
theorem faithful_of_recorded (fits : o.Fits) (faithful : o.Faithful) {decision followed : InoKnobs}
    {optimizer : InternodeOptimizer F}
    (recorded : o.optimizer.recordedDecision inquiry.previousDecision = some followed)
    (past : optimizer.vPast = (o.optimizer.updateHistory inquiry.measureLoad inquiry.measureTime
      inquiry.measureEnergy inquiry.previousDecision).vPast) :
    (o.note inquiry decision optimizer).Faithful ↔ o.Harmless inquiry := by
  obtain ⟨follows, counted⟩ := fits.follows_of_recorded recorded
  rw [vPast_of_recorded recorded] at past
  have latest : (o.note inquiry decision optimizer).latest =
      Function.update o.latest followed (some inquiry) := by
    unfold note
    rw [follows]
  unfold Harmless Faithful
  rw [latest]
  show (∀ entry ∈ optimizer.vPast, _) ↔ _
  rw [past]
  constructor
  · intro faithful' other same
    rw [follows] at same
    obtain rfl := Option.some.inj same
    rw [if_neg counted]
    by_cases never : o.optimizer.uHistoryInterval = 0
    · exact Or.inl never
    · right
      have kept := (retains_new fits.tick followed inquiry.measureLoad inquiry.measureEnergy
        inquiry.measureTime).mpr never
      obtain ⟨stored, found, stores⟩ := faithful' _
        (List.mem_filter.mpr ⟨o.optimizer.mem_recordPoint_self followed inquiry.measureLoad
          inquiry.measureEnergy inquiry.measureTime, kept⟩)
      rw [Function.update_self] at found
      obtain rfl := Option.some.inj found
      exact stores.energy
  · intro harmless entry found
    obtain ⟨member, retained⟩ := List.mem_filter.mp found
    rcases mem_recordPoint.mp member with new | ⟨before, other⟩
    · have condition := harmless followed follows
      rw [if_neg counted] at condition
      subst new
      have never := (retains_new fits.tick _ _ _ _).mp retained
      have same := condition.resolve_left never
      exact ⟨inquiry, Function.update_self _ _ _, rfl, same.symm, same⟩
    · rw [Function.update_of_ne other]
      exact faithful entry before

/-- A call that records no point keeps the history faithful exactly if it does no harm. -/
theorem faithful_of_notRecorded (faithful : o.Faithful) {decision : InoKnobs}
    {optimizer : InternodeOptimizer F}
    (absent : o.optimizer.recordedDecision inquiry.previousDecision = none)
    (past : optimizer.vPast = (o.optimizer.updateHistory inquiry.measureLoad inquiry.measureTime
      inquiry.measureEnergy inquiry.previousDecision).vPast) :
    (o.note inquiry decision optimizer).Faithful ↔ o.Harmless inquiry := by
  have uncounted := of_notRecorded absent
  rw [vPast_of_notRecorded absent] at past
  unfold Harmless Faithful note
  simp only [if_pos uncounted]
  show (∀ entry ∈ optimizer.vPast, _) ↔ _
  rw [past]
  cases follows : inquiry.follows o.lastDecision with
  | none =>
    refine ⟨fun _ other same => (by cases same), fun _ entry found => ?_⟩
    exact faithful entry (List.mem_filter.mp found).1
  | some followed =>
    constructor
    · intro faithful' other same entry before knobs retained
      obtain rfl := Option.some.inj same
      obtain ⟨stored, found, stores⟩ := faithful' entry (List.mem_filter.mpr ⟨before, retained⟩)
      rw [knobs] at found
      dsimp only at found
      rw [Function.update_self] at found
      obtain rfl := Option.some.inj found
      exact stores
    · intro harmless entry found
      obtain ⟨before, retained⟩ := List.mem_filter.mp found
      by_cases here : entry.cKnobs = followed
      · refine ⟨inquiry, ?_, harmless followed rfl entry before here retained⟩
        rw [here]
        exact Function.update_self _ _ _
      · dsimp only
        rw [Function.update_of_ne here]
        exact faithful entry before

end Observed

section Runs

variable [NatCast F] [Add F] [Div F] [LT F] [DecidableLT F] {sort : StdSort (ParetoEntry F)}
  {beyond : F} {o o' : Observed F} {inquiry : Inquiry F} {nodes lower upper interval : Nat}

/-- A call keeps what the observer remembers fitting to the optimizer. -/
theorem Observed.Fits.step (called : (observing sort beyond nodes lower upper interval).step o
    inquiry o') : o'.Fits := by
  obtain ⟨decision, optimizer, decided, rfl⟩ := called
  obtain ⟨-, choice, -, tick⟩ := getNodeConfiguration_keeps decided
  refine ⟨fun absent => (by cases absent), fun last same => ?_, ?_⟩
  · rw [← Option.some.inj same]
    exact choice
  · show optimizer.uHistoryTick < 2 ^ 64
    rw [tick]
    exact Nat.mod_lt _ (by decide)

/-- In every run the history is faithful in all states exactly if all calls do no harm. -/
theorem faithful_run_iff {history : List (Observed F × Inquiry F)}
    (run : (observing sort beyond nodes lower upper interval).Run history o) :
    System.Always Observed.Faithful history o ↔ System.Meets Observed.Harmless history := by
  apply run.always_iff (J := Observed.Fits)
  · exact ⟨fun _ => rfl, fun _ absent => (by cases absent), Nat.two_pow_pos 64⟩
  · exact fun _ called => Observed.Fits.step called
  · exact fun entry member => absurd member List.not_mem_nil
  · intro o inquiry o' fits faithful called
    obtain ⟨decision, optimizer, decided, rfl⟩ := called
    obtain ⟨past, -, -, -⟩ := getNodeConfiguration_keeps decided
    cases recorded : o.optimizer.recordedDecision inquiry.previousDecision with
    | none => exact Observed.faithful_of_notRecorded faithful recorded past
    | some followed => exact Observed.faithful_of_recorded fits faithful recorded past

end Runs

/-- An optimizer for one or two nodes that has been asked once, and has explored one node. -/
def exploredOnce : InternodeOptimizer ℚ :=
  ⟨⟨1⟩, 1, 2, 1, 5, 1, [], [⟨1, true⟩, ⟨2, true⟩], [], [⟨2⟩]⟩

/-- The optimizer when it has been asked again, and has explored the other number of nodes. -/
def exploredTwice (time energy : ℚ) : InternodeOptimizer ℚ :=
  ⟨⟨2⟩, 1, 2, 2, 5, 2, [⟨1, ⟨1⟩, [3], [energy], [time]⟩], [⟨1, true⟩, ⟨2, true⟩], [], []⟩

/-- The first call, which follows no decision. -/
def firstInquiry : Inquiry ℚ := ⟨⟨[1], [2], [4], [0]⟩, none⟩

/-- The second call, which follows the first decision. -/
def secondInquiry (time energy : ℚ) : Inquiry ℚ := ⟨⟨[3], [time], [energy], [0]⟩, none⟩

/-- What is observed after the first call. -/
def observedOnce : Observed ℚ := ⟨exploredOnce, some ⟨1⟩, fun _ => none⟩

/-- The first call. -/
theorem observing_first : (observing .insertion 0 2 1 2 5).step
    ⟨create 2 1 2 5, none, fun _ => none⟩ firstInquiry observedOnce :=
  ⟨⟨1⟩, exploredOnce, by decide +kernel, rfl⟩

/-- Two calls, of which the second one has measured as much time as energy. -/
theorem faithful_run_two : ∃ (history : List (Observed ℚ × Inquiry ℚ)) (o : Observed ℚ),
    (observing .insertion 0 2 1 2 5).Run history o ∧ history.length = 2 ∧
      o.optimizer.vPast = [⟨1, ⟨1⟩, [3], [7], [7]⟩] ∧
      (System.Always Observed.Faithful history o ↔ System.Meets Observed.Harmless history) := by
  have second : (observing .insertion 0 2 1 2 5).step observedOnce (secondInquiry 7 7)
      (observedOnce.note (secondInquiry 7 7) ⟨2⟩ (exploredTwice 7 7)) :=
    ⟨⟨2⟩, exploredTwice 7 7, by decide +kernel, rfl⟩
  have run := (System.Run.start.step observing_first).step second
  exact ⟨_, _, run, rfl, rfl, faithful_run_iff run⟩

/-- The second call has measured two units of time and four of energy, and the history stores four
units of time and two of energy. -/
theorem not_faithful : ∃ (history : List (Observed ℚ × Inquiry ℚ)) (o : Observed ℚ),
    (observing .insertion 0 2 1 2 5).Run history o ∧ ¬ o.Faithful := by
  have second : (observing .insertion 0 2 1 2 5).step observedOnce (secondInquiry 2 4)
      (observedOnce.note (secondInquiry 2 4) ⟨2⟩ (exploredTwice 2 4)) :=
    ⟨⟨2⟩, exploredTwice 2 4, by decide +kernel, rfl⟩
  refine ⟨_, _, (System.Run.start.step observing_first).step second, fun faithful => ?_⟩
  obtain ⟨stored, found, stores⟩ := faithful ⟨1, ⟨1⟩, [3], [4], [2]⟩ List.mem_cons_self
  obtain rfl : secondInquiry 2 4 = stored := Option.some.inj found
  have swapped : [(4 : ℚ)] = [2] := stores.time
  exact absurd swapped (by decide)

end InternodeOptimizer

end AllScale
