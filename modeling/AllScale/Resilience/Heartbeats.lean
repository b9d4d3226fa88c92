import AllScale.Resilience.Ring

/-!
# Heartbeats

Every locality sends its clock, in seconds, to its guard, and declares its protectee crashed when
the counter of the last heartbeat lags behind its own clock. The counter is written by whatever
heartbeat is delivered, and it is not reset when the protectee changes. It blames the silent only as
long as it is not older than what the silence of the protectee is counted from.
-/

namespace AllScale

open Transition
open Function (update)

namespace Resilience

variable {W : Type}

/-- A heartbeat on its way. -/
structure Heartbeat where
  /-- The locality that has sent it. -/
  sender : Nat
  /-- The guard it has been sent to. -/
  receiver : Nat
  /-- The clock of the sender, in seconds. -/
  counter : Nat
  deriving DecidableEq

/-- A rank that a locality has declared crashed. -/
structure Blame where
  /-- The locality. -/
  observer : Nat
  /-- Its protectee at that time. -/
  rank : Nat
  /-- What the silence is counted from: the last delivery of a heartbeat of the rank, or the moment
  it became the protectee when that was later. -/
  reference : Nat
  /-- When the rank was declared crashed. -/
  time : Nat

/-- The localities of a network, their clock and the heartbeats on their way. -/
structure Watch (W : Type) where
  /-- The time. -/
  clock : Nat
  /-- The localities that have not crashed. -/
  alive : Finset Nat
  /-- The localities whose recovery waits for a crashed one. -/
  blocked : Finset Nat
  /-- The components of all localities. -/
  nodes : Nat → Resilience W
  /-- The heartbeats that have not been delivered. -/
  messages : List Heartbeat
  /-- When a heartbeat of a sender was last delivered to a receiver. -/
  delivered : Nat → Nat → Option Nat
  /-- When the protectee of a locality became its protectee. -/
  since : Nat → Nat
  /-- All ranks that have been declared crashed. -/
  blamed : List Blame

namespace Watch

/-- What the silence of the protectee of a locality is counted from. -/
def reference (s : Watch W) (here : Nat) : Nat :=
  max ((s.delivered here (s.nodes here).protecteeRank).getD 0) (s.since here)

/-- The clock of a locality, in seconds since it started. -/
def seconds (s : Watch W) (here : Nat) : Nat := (s.clock - (s.nodes here).startTime) / 1000

/-- One round of the loop in `resilience::send_heartbeat_loop`. A recovery that has to wait for a
crashed locality does not end. -/
def beat (s : Watch W) (here : Nat) : Watch W :=
  let myHeartbeat := s.seconds here
  let nodes := update s.nodes here { s.nodes here with myHeartbeat := myHeartbeat }
  let messages := s.messages ++ [⟨here, (nodes here).guardRank, myHeartbeat⟩]
  if myHeartbeat > (nodes here).protecteeHeartbeat + delta / 1000 then
    let blamed := ⟨here, (nodes here).protecteeRank, s.reference here, s.clock⟩ :: s.blamed
    match protecteeCrashed s.alive nodes here with
    | some nodes =>
      { s with nodes := nodes, messages := messages, blamed := blamed
               since := update s.since here s.clock }
    | none =>
      { s with nodes := nodes, messages := messages, blamed := blamed
               blocked := insert here s.blocked }
  else { s with nodes := nodes, messages := messages }

/-- A heartbeat is delivered. -/
def deliver (s : Watch W) (message : Heartbeat) : Watch W :=
  { s with
    nodes := update s.nodes message.receiver
      ((s.nodes message.receiver).sendHeartbeat message.counter)
    messages := s.messages.erase message
    delivered := update s.delivered message.receiver
      (update (s.delivered message.receiver) message.sender (some s.clock)) }

/-- What can happen in the network. -/
inductive Action where
  /-- Time passes. -/
  | wait (milliseconds : Nat)
  /-- A locality crashes. -/
  | crash (rank : Nat)
  /-- A locality sends a heartbeat and checks its protectee. -/
  | beat (here : Nat)
  /-- A heartbeat is delivered. -/
  | deliver (message : Heartbeat)

/-- The heartbeat loop of a locality goes on. -/
def Beating (s : Watch W) (here : Nat) : Prop :=
  here ∈ s.alive ∧ here ∉ s.blocked ∧ (s.nodes here).envResilienceDisabled = false ∧
    (s.nodes here).keepRunning = true

/-- The steps of a network. -/
inductive Step : Watch W → Action → Watch W → Prop
  | wait {s : Watch W} (milliseconds : Nat) :
      Step s (.wait milliseconds) { s with clock := s.clock + milliseconds }
  | crash {s : Watch W} (rank : Nat) : Step s (.crash rank) { s with alive := s.alive.erase rank }
  | beat {s : Watch W} {here : Nat} : s.Beating here → Step s (.beat here) (s.beat here)
  | deliver {s : Watch W} {message : Heartbeat} : message ∈ s.messages →
      message.receiver ∈ s.alive → Step s (.deliver message) (s.deliver message)

/-- A network whose localities start at given times. -/
def watch (W : Type) (size : Nat) (startTime : Nat → Nat) : System (Watch W) Action where
  start :=
    { clock := 0
      alive := Finset.range size
      blocked := ∅
      nodes := fun rank => init rank size (startTime rank) false
      messages := []
      delivered := fun _ _ => none
      since := startTime
      blamed := [] }
  step := Step

/-- Every rank that has been declared crashed had been silent for longer than `delta`. -/
def Justified (s : Watch W) : Prop := ∀ blame ∈ s.blamed, blame.reference + delta < blame.time

/-- The counter of a locality is not older than what the silence of its protectee is counted
from. -/
def Fresh (s : Watch W) (here : Nat) : Prop :=
  (s.reference here - (s.nodes here).startTime) / 1000 ≤ (s.nodes here).protecteeHeartbeat

/-- A protectee is only checked with a fresh counter. -/
def Action.Fresh (s : Watch W) : Action → Prop
  | .wait _ => True
  | .crash _ => True
  | .beat here => s.Fresh here
  | .deliver _ => True

/-! ## Checks -/

variable {s s' : Watch W} {here : Nat}

/-- A round of the loop declares the protectee crashed exactly if the counter lags behind. -/
theorem blamed_beat (s : Watch W) (here : Nat) :
    (s.beat here).blamed =
      if s.seconds here > (s.nodes here).protecteeHeartbeat + delta / 1000 then
        ⟨here, (s.nodes here).protecteeRank, s.reference here, s.clock⟩ :: s.blamed
      else s.blamed := by
  unfold beat
  simp only [Function.update_self]
  split
  · split <;> rfl
  · rfl

/-- With a fresh counter the protectee is declared crashed after a long silence only. -/
theorem silent_of_fresh (fresh : s.Fresh here)
    (lags : s.seconds here > (s.nodes here).protecteeHeartbeat + delta / 1000) :
    s.reference here + delta < s.clock := by
  unfold Fresh at fresh
  unfold seconds at lags
  unfold delta at lags ⊢
  omega

/-- With a stale counter, waiting makes the locality declare its protectee crashed too early. -/
theorem blames_of_stale (stale : ¬ s.Fresh here) (recent : s.clock ≤ s.reference here + delta) :
    ∃ milliseconds, let later := { s with clock := s.clock + milliseconds }
      ∃ blame ∈ (later.beat here).blamed, blame.observer = here ∧
        blame.time ≤ blame.reference + delta := by
  unfold Fresh at stale
  -- the moment from which the counter lags behind
  refine ⟨(s.nodes here).startTime + 1000 * ((s.nodes here).protecteeHeartbeat + 11) - s.clock, ?_⟩
  intro later
  have same : later.reference here = s.reference here := rfl
  have lags : later.seconds here > (later.nodes here).protecteeHeartbeat + delta / 1000 := by
    show (s.clock + _ - (s.nodes here).startTime) / 1000 > (s.nodes here).protecteeHeartbeat + _
    unfold delta
    omega
  rw [blamed_beat, if_pos lags]
  refine ⟨_, List.mem_cons_self, rfl, ?_⟩
  show s.clock + _ ≤ s.reference here + delta
  unfold delta at recent ⊢
  omega

/-- In every run in which protectees are checked with fresh counters, only the silent are declared
crashed. -/
theorem justified_of_run {size : Nat} {startTime : Nat → Nat} {history : List (Watch W × Action)}
    (run : (watch W size startTime).Run history s)
    (meets : System.Meets (fun s action => action.Fresh s) history) :
    System.Always Justified history s := by
  refine run.always (fun _ member => absurd member List.not_mem_nil)
    (fun justified fresh step => ?_) meets
  cases step with
  | wait => exact justified
  | crash => exact justified
  | @beat here beating =>
    unfold Justified
    rw [blamed_beat]
    split
    · rename_i lags
      intro blame found
      rcases List.mem_cons.mp found with here | before
      · rw [here]
        exact silent_of_fresh fresh lags
      · exact justified blame before
    · exact justified
  | deliver => exact justified

/-! ## Four localities -/

/-- Of four localities the second has crashed, eleven seconds have passed, and its guard checks. -/
def suspected : Watch Nat :=
  let s := { (watch Nat 4 fun _ => 0).start with alive := (Finset.range 4).erase 1 }
  { s with clock := s.clock + 11000 }

/-- The guard of the crashed locality declares it crashed, eleven seconds after the start. -/
theorem run_four : (watch Nat 4 fun _ => 0).Run
    [(suspected, .beat 2), ({ suspected with clock := 0 }, .wait 11000),
      ((watch Nat 4 fun _ => 0).start, .crash 1)] (suspected.beat 2) := by
  apply System.Run.step
  · apply System.Run.step
    · exact .step .start (.crash 1)
    · exact .wait 11000
  · exact .beat ⟨by decide, by decide, rfl, rfl⟩

/-- The first locality to be declared crashed has been silent. -/
theorem justified_of_run_four : ∃ (history : List (Watch Nat × Action)) (s : Watch Nat),
    (watch Nat 4 fun _ => 0).Run history s ∧ s.blamed ≠ [] ∧ System.Always Justified history s := by
  refine ⟨_, _, run_four, ?_, justified_of_run run_four ?_⟩
  · rw [blamed_beat, if_pos (by decide)]
    simp
  · intro taken found
    simp only [List.mem_cons, List.not_mem_nil, or_false] at found
    rcases found with rfl | rfl | rfl
    · exact Nat.le_refl 0
    · trivial
    · trivial

/-- The guard of the crashed locality checks its new protectee against the counter of the old one,
half a second after the recovery. -/
theorem not_justified : ¬ ∀ (history : List (Watch Nat × Action)) (s : Watch Nat),
    (watch Nat 4 fun _ => 0).Run history s → s.Justified := by
  intro claim
  let later : Watch Nat := { suspected.beat 2 with clock := (suspected.beat 2).clock + 500 }
  have run := run_four.step (.wait 500)
  have beating : later.Beating 2 := ⟨by decide, by decide, rfl, rfl⟩
  have justified := claim _ _ (run.step (.beat beating))
  unfold Justified at justified
  rw [blamed_beat, if_pos (by decide)] at justified
  exact absurd (justified _ List.mem_cons_self) (by decide)

end Watch

end Resilience

end AllScale
