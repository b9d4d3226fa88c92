import Mathlib.Logic.Function.Basic
import Mathlib.Tactic.Common
import AllScale.Lib.Run

/-!
# The queue of profiles

The wrappers of the monitor push the profiles of finished work items into one of two buffers, and a
thread of its own processes them. When it wakes up it directs the producers to the other buffer,
drains its own one without the lock, and then follows the producers. The two indices agree exactly
while the thread waits or holds the lock, so it never shares a buffer with a producer, and no
profile is lost or overtaken.
-/

namespace AllScale

open Transition
open Function (update)

/-- `profile` — what the thread reads of it, for a type of times. -/
structure Profile (T : Type) where
  /-- `get_wid`. -/
  wid : String
  /-- `get_parent_wid`. -/
  parentWid : String
  /-- `get_exclusive_time`. -/
  exclusiveTime : T

/-- What the thread records about the work items. -/
structure Records (T : Type) where
  /-- `wi_dependencies`. -/
  wiDependencies : String → Option (List String)
  /-- `profiles`. -/
  profiles : String → Option (Profile T)
  /-- `work_item_times`. -/
  workItemTimes : List T

/-- Where the thread is in a loop that drains a buffer. -/
inductive Drain (T : Type) where
  /-- `while(!queues[current_read_queue].empty())`. -/
  | test
  /-- The profile at the front is processed. -/
  | process (profile : Profile T)
  /-- `queues[current_read_queue].pop()`. -/
  | pop

/-- Where the thread is in `monitor::process_profiles`. -/
inductive Worker (T : Type) where
  /-- It has not taken the lock yet. -/
  | start
  /-- `while(!done)`. -/
  | loop
  /-- Before `cv.wait(lk)`. -/
  | wait
  /-- In `cv.wait(lk)`. -/
  | waiting (notified : Bool)
  /-- Behind `cv.wait(lk)`. -/
  | woken
  /-- Before `lk.unlock()` in the loop. -/
  | switched
  /-- In the loop that drains a buffer: the one behind the outer loop, or the one in it. -/
  | drain (final : Bool) (drain : Drain T)
  /-- Before `lk.lock()` in the loop. -/
  | drained
  /-- Behind `lk.lock()` in the loop. -/
  | relocked
  /-- It has ended. -/
  | finished

/-- Who holds `m_queue`. -/
inductive Holder (T : Type) where
  /-- The thread. -/
  | worker
  /-- A producer, before it pushes a profile. -/
  | pushing (profile : Profile T)
  /-- A producer, after it has pushed a profile. -/
  | pushed (notifyConsumer : Bool)
  /-- `monitor::stop`, before it sets `done`. -/
  | stopping
  /-- `monitor::stop`, after it has set `done`. -/
  | stopped

/-- `components::monitor` — the two buffers and those who use them. -/
structure Monitor (T : Type) where
  /-- `queues`. -/
  queues : Nat → List (Profile T)
  /-- `current_read_queue`. -/
  currentReadQueue : Nat
  /-- `current_write_queue`. -/
  currentWriteQueue : Nat
  /-- `done`. -/
  done : Bool
  /-- `m_queue`. -/
  mQueue : Option (Holder T)
  /-- The thread. -/
  worker : Worker T
  /-- The calls of `cv.notify_one` that are to come. -/
  notifications : Nat
  /-- `monitor::stop` has been called. -/
  stopRequested : Bool
  /-- What has been recorded. -/
  records : Records T
  /-- All profiles that have been pushed, in order. -/
  pushed : List (Profile T)
  /-- All profiles that have been processed, in order. -/
  processed : List (Profile T)
  /-- The profiles that had been pushed when the final drain began. -/
  pushedBefore : List (Profile T)

/-- `MIN_QUEUE_ELEMS`. -/
def minQueueElems : Nat := 500

variable {T : Type}

/-- A monitor that has recorded nothing. -/
def Records.empty : Records T := ⟨fun _ => none, fun _ => none, []⟩

/-- What `monitor::process_profiles` does with a profile. -/
def Records.add (self : Records T) (profile : Profile T) : Records T where
  wiDependencies := update self.wiDependencies profile.parentWid <|
    match self.wiDependencies profile.parentWid with
    | none => some [profile.wid]
    | some children => some (children ++ [profile.wid])
  profiles :=
    match self.profiles profile.wid with
    | none => update self.profiles profile.wid (some profile)
    | some _ => self.profiles
  workItemTimes := self.workItemTimes ++ [profile.exclusiveTime]

/-- `cv.notify_one` wakes the thread up when it waits. -/
def Worker.notify : Worker T → Worker T
  | .waiting _ => .waiting true
  | worker => worker

namespace Monitor

/-- Those who act on the buffers. -/
inductive Party where
  /-- The thread. -/
  | worker
  /-- A producer. -/
  | producer
  /-- `monitor::stop`. -/
  | stop
  /-- Someone who calls `cv.notify_one` after the lock has been released. -/
  | notifier

/-- The steps of the thread, of the producers and of `monitor::stop`. The thread may wake up without
a notification. -/
inductive Step : Monitor T → Party → Monitor T → Prop
  | lock {s : Monitor T} : s.worker = .start → s.mQueue = none →
      Step s .worker { s with mQueue := some .worker, worker := .loop }
  | again {s : Monitor T} : s.worker = .loop → s.done = false →
      Step s .worker { s with worker := .wait }
  | last {s : Monitor T} : s.worker = .loop → s.done = true →
      Step s .worker { s with worker := .drain true .test, pushedBefore := s.pushed }
  | wait {s : Monitor T} : s.worker = .wait →
      Step s .worker { s with mQueue := none, worker := .waiting false }
  | wake {s : Monitor T} {notified : Bool} : s.worker = .waiting notified → s.mQueue = none →
      Step s .worker { s with mQueue := some .worker, worker := .woken }
  | switchWrite {s : Monitor T} : s.worker = .woken →
      Step s .worker
        { s with currentWriteQueue := (s.currentWriteQueue + 1) % 2, worker := .switched }
  | unlock {s : Monitor T} : s.worker = .switched →
      Step s .worker { s with mQueue := none, worker := .drain false .test }
  | front {s : Monitor T} {final : Bool} {profile : Profile T} {rest : List (Profile T)} :
      s.worker = .drain final .test → s.queues s.currentReadQueue = profile :: rest →
      Step s .worker { s with worker := .drain final (.process profile) }
  | process {s : Monitor T} {final : Bool} {profile : Profile T} :
      s.worker = .drain final (.process profile) →
      Step s .worker
        { s with
          records := s.records.add profile
          processed := s.processed ++ [profile]
          worker := .drain final .pop }
  | pop {s : Monitor T} {final : Bool} : s.worker = .drain final .pop →
      Step s .worker
        { s with
          queues := update s.queues s.currentReadQueue (s.queues s.currentReadQueue).tail
          worker := .drain final .test }
  | drained {s : Monitor T} : s.worker = .drain false .test → s.queues s.currentReadQueue = [] →
      Step s .worker { s with worker := .drained }
  | relock {s : Monitor T} : s.worker = .drained → s.mQueue = none →
      Step s .worker { s with mQueue := some .worker, worker := .relocked }
  | switchRead {s : Monitor T} : s.worker = .relocked →
      Step s .worker { s with currentReadQueue := (s.currentReadQueue + 1) % 2, worker := .loop }
  | finish {s : Monitor T} : s.worker = .drain true .test → s.queues s.currentReadQueue = [] →
      Step s .worker { s with mQueue := none, worker := .finished }
  | lockPush {s : Monitor T} (profile : Profile T) : s.mQueue = none →
      Step s .producer { s with mQueue := some (.pushing profile) }
  | push {s : Monitor T} {profile : Profile T} : s.mQueue = some (.pushing profile) →
      Step s .producer
        { s with
          queues := update s.queues s.currentWriteQueue
            (s.queues s.currentWriteQueue ++ [profile])
          pushed := s.pushed ++ [profile]
          mQueue := some <| .pushed <|
            minQueueElems ≤ (s.queues s.currentWriteQueue ++ [profile]).length }
  | unlockPush {s : Monitor T} {notifyConsumer : Bool} : s.mQueue = some (.pushed notifyConsumer) →
      Step s .producer
        { s with mQueue := none, notifications := s.notifications + notifyConsumer.toNat }
  | lockStop {s : Monitor T} : s.mQueue = none → s.stopRequested = false →
      Step s .stop { s with mQueue := some .stopping, stopRequested := true }
  | setDone {s : Monitor T} : s.mQueue = some .stopping →
      Step s .stop { s with done := true, mQueue := some .stopped }
  | unlockStop {s : Monitor T} : s.mQueue = some .stopped →
      Step s .stop { s with mQueue := none, notifications := s.notifications + 1 }
  | notify {s : Monitor T} : 0 < s.notifications →
      Step s .notifier { s with notifications := s.notifications - 1, worker := s.worker.notify }

/-- The buffers of a monitor that has just been constructed. -/
def profiling (T : Type) : System (Monitor T) Party where
  start :=
    { queues := fun _ => []
      currentReadQueue := 0
      currentWriteQueue := 0
      done := false
      mQueue := none
      worker := .start
      notifications := 0
      stopRequested := false
      records := .empty
      pushed := []
      processed := []
      pushedBefore := [] }
  step := Step

/-! ## Properties -/

/-- The thread is about to read or pop the buffer it drains. -/
def Reads (s : Monitor T) : Prop := ∃ final drain, s.worker = .drain final drain

/-- The statements that are left to the thread while it drains a buffer. -/
def remaining (s : Monitor T) : Nat :=
  let queue := s.queues s.currentReadQueue
  match s.worker with
  | .drain _ .test => 3 * queue.length + 1
  | .drain _ (.process _) => 3 * queue.tail.length + 3
  | .drain _ .pop => 3 * queue.tail.length + 2
  | _ => 0

/-- A step brings the thread closer to the end of the buffer it drains, or leaves it alone. -/
def Advances (s s' : Monitor T) : Party → Prop
  | .worker => s'.remaining < s.remaining
  | _ => s'.worker = s.worker ∧ s'.remaining = s.remaining

/-- The profiles are delivered. -/
structure Delivers (s : Monitor T) : Prop where
  /-- They are processed once, in the order in which they were pushed. -/
  inOrder : s.processed <+: s.pushed
  /-- When the thread has ended, all that had been pushed before its final drain are processed. -/
  complete : s.worker = .finished → s.processed = s.pushedBefore
  /-- What is recorded is what the processed profiles amount to. -/
  recorded : s.records = s.processed.foldl Records.add .empty
  /-- Without the lock, the thread does not use the buffer into which producers push. -/
  exclusive : s.Reads → s.mQueue ≠ some .worker → s.currentReadQueue ≠ s.currentWriteQueue
  /-- There are two buffers. -/
  inside : s.currentReadQueue < 2 ∧ s.currentWriteQueue < 2
  /-- After the stop request the thread does not sleep, unless a notification is still to come. -/
  awake : s.worker = .waiting false → s.done = true → s.mQueue = some .stopped ∨ 0 < s.notifications
  /-- A buffer that is drained will be empty: the thread is never held up there. -/
  ends : s.Reads →
    (∃ s', Step s .worker s') ∧ ∀ {party s'}, Step s party s' → s.Advances s' party

end Monitor

/-! ## The thread -/

namespace Worker

/-- The thread holds the lock. -/
def locked : Worker T → Bool
  | .start => false
  | .loop => true
  | .wait => true
  | .waiting _ => false
  | .woken => true
  | .switched => true
  | .drain final _ => final
  | .drained => false
  | .relocked => true
  | .finished => false

end Worker

namespace Monitor

variable {s s' : Monitor T} {party : Party}

/-- The thread holds the lock exactly where its code says so. -/
def Locked (s : Monitor T) : Prop := s.mQueue = some .worker ↔ s.worker.locked = true

/-- Only those who hold the lock release it. -/
theorem locked_step (locked : s.Locked) (step : Step s party s') : s'.Locked := by
  unfold Locked at locked ⊢
  cases step with
  | notify pending =>
    rw [show s.worker.notify.locked = s.worker.locked by cases s.worker <;> rfl]
    exact locked
  | _ => simp_all [Worker.locked]

/-- Who else holds the lock finds the thread outside of its critical sections. -/
theorem Locked.free (locked : s.Locked) {holder : Holder T} (held : s.mQueue = some holder)
    (other : holder ≠ .worker) : s.worker.locked = false := by
  unfold Locked at locked
  rw [held, Option.some.injEq] at locked
  exact Bool.eq_false_iff.mpr fun own => other (locked.mpr own)

/-! ## The buffers -/

/-- The producers push to the buffer of the thread, where the profiles to do are the last ones that
have been pushed; the other buffer is empty. -/
def Together (s : Monitor T) (todo : List (Profile T)) : Prop :=
  s.currentReadQueue < 2 ∧ s.currentWriteQueue = s.currentReadQueue ∧
    s.queues (1 - s.currentReadQueue) = [] ∧ s.pushed = s.processed ++ todo

/-- The producers push to the other buffer, whose profiles follow the ones to do. -/
def Apart (s : Monitor T) (todo : List (Profile T)) : Prop :=
  s.currentReadQueue < 2 ∧ s.currentWriteQueue = 1 - s.currentReadQueue ∧
    s.pushed = s.processed ++ (todo ++ s.queues s.currentWriteQueue)

/-- How the buffers are used while one of them is drained. -/
def Draining (s : Monitor T) (todo : List (Profile T)) : (final : Bool) → Prop
  | true => s.Together todo ∧ s.pushedBefore = s.pushed
  | false => s.Apart todo

/-- How the buffers are used at every point of the thread. -/
def Shape (s : Monitor T) : Worker T → Prop
  | .start => s.Together (s.queues s.currentReadQueue)
  | .loop => s.Together (s.queues s.currentReadQueue)
  | .wait => s.Together (s.queues s.currentReadQueue)
  | .waiting _ => s.Together (s.queues s.currentReadQueue)
  | .woken => s.Together (s.queues s.currentReadQueue)
  | .switched => s.Apart (s.queues s.currentReadQueue)
  | .drain final .test => s.Draining (s.queues s.currentReadQueue) final
  | .drain final (.process profile) =>
    ∃ rest, s.queues s.currentReadQueue = profile :: rest ∧ s.Draining (profile :: rest) final
  | .drain final .pop =>
    ∃ profile rest, s.queues s.currentReadQueue = profile :: rest ∧ s.Draining rest final
  | .drained => s.queues s.currentReadQueue = [] ∧ s.Apart []
  | .relocked => s.queues s.currentReadQueue = [] ∧ s.Apart []
  | .finished => s.Together (s.queues s.currentReadQueue) ∧ s.processed = s.pushedBefore

/-- The producers are directed to the other buffer. -/
theorem Together.switchWrite {todo : List (Profile T)} (together : s.Together todo)
    (worker : Worker T) : Apart
      { s with currentWriteQueue := (s.currentWriteQueue + 1) % 2, worker := worker } todo := by
  obtain ⟨inside, same, empty, order⟩ := together
  have flipped : (s.currentWriteQueue + 1) % 2 = 1 - s.currentReadQueue := by omega
  refine ⟨inside, flipped, ?_⟩
  show s.pushed = s.processed ++ (todo ++ s.queues ((s.currentWriteQueue + 1) % 2))
  rw [flipped, empty, List.append_nil, order]

/-- The thread follows the producers when its own buffer is empty. -/
theorem Apart.switchRead (apart : s.Apart []) (empty : s.queues s.currentReadQueue = [])
    (worker : Worker T) : Together
      { s with currentReadQueue := (s.currentReadQueue + 1) % 2, worker := worker }
      (s.queues ((s.currentReadQueue + 1) % 2)) := by
  obtain ⟨inside, other, order⟩ := apart
  have flipped : s.currentWriteQueue = (s.currentReadQueue + 1) % 2 := by omega
  have back : 1 - (s.currentReadQueue + 1) % 2 = s.currentReadQueue := by omega
  refine ⟨Nat.mod_lt _ (by decide), flipped, ?_, ?_⟩
  · show s.queues (1 - (s.currentReadQueue + 1) % 2) = []
    rw [back, empty]
  · show s.pushed = s.processed ++ s.queues ((s.currentReadQueue + 1) % 2)
    rw [← flipped, order, List.nil_append]

/-- The front of the buffer is popped after its profile has been processed. -/
theorem Draining.pop {profile : Profile T} {rest : List (Profile T)} {final : Bool}
    (front : s.queues s.currentReadQueue = profile :: rest) (draining : s.Draining rest final)
    (worker : Worker T) : Draining
      { s with
        queues := update s.queues s.currentReadQueue (s.queues s.currentReadQueue).tail
        worker := worker }
      (update s.queues s.currentReadQueue (s.queues s.currentReadQueue).tail s.currentReadQueue)
      final := by
  rw [Function.update_self, front, List.tail_cons]
  cases final with
  | true =>
    obtain ⟨⟨inside, same, empty, order⟩, before⟩ := draining
    refine ⟨⟨inside, same, ?_, order⟩, before⟩
    show update s.queues s.currentReadQueue rest (1 - s.currentReadQueue) = []
    rwa [Function.update_of_ne (by omega)]
  | false =>
    obtain ⟨inside, other, order⟩ := draining
    refine ⟨inside, other, ?_⟩
    show s.pushed =
      s.processed ++ (rest ++ update s.queues s.currentReadQueue rest s.currentWriteQueue)
    rwa [Function.update_of_ne (by omega)]

/-- A profile is pushed to the buffer of the thread. -/
theorem Together.push (together : s.Together (s.queues s.currentReadQueue)) (profile : Profile T)
    (holder : Option (Holder T)) : Together
      { s with
        queues := update s.queues s.currentWriteQueue (s.queues s.currentWriteQueue ++ [profile])
        pushed := s.pushed ++ [profile]
        mQueue := holder }
      (update s.queues s.currentWriteQueue (s.queues s.currentWriteQueue ++ [profile])
        s.currentReadQueue) := by
  obtain ⟨inside, same, empty, order⟩ := together
  rw [same]
  refine ⟨inside, rfl, ?_, ?_⟩
  · show update s.queues s.currentReadQueue _ (1 - s.currentReadQueue) = []
    rwa [Function.update_of_ne (by omega)]
  · show s.pushed ++ [profile] = s.processed ++ _
    rw [Function.update_self, order, List.append_assoc]

/-- A profile is pushed to the other buffer. -/
theorem Apart.push {todo : List (Profile T)} (apart : s.Apart todo) (profile : Profile T)
    (holder : Option (Holder T)) : Apart
      { s with
        queues := update s.queues s.currentWriteQueue (s.queues s.currentWriteQueue ++ [profile])
        pushed := s.pushed ++ [profile]
        mQueue := holder } todo ∧
      update s.queues s.currentWriteQueue (s.queues s.currentWriteQueue ++ [profile])
        s.currentReadQueue = s.queues s.currentReadQueue := by
  obtain ⟨inside, other, order⟩ := apart
  refine ⟨⟨inside, other, ?_⟩, Function.update_of_ne (by omega) _ _⟩
  show s.pushed ++ [profile] = s.processed ++ (todo ++ update s.queues _ _ s.currentWriteQueue)
  rw [Function.update_self, order, List.append_assoc, List.append_assoc]

/-- A push keeps the use of the buffers, wherever the thread is outside of its critical sections. -/
theorem shape_push (free : s.worker.locked = false) (shape : s.Shape s.worker)
    (profile : Profile T) (holder : Option (Holder T)) : Shape
      { s with
        queues := update s.queues s.currentWriteQueue (s.queues s.currentWriteQueue ++ [profile])
        pushed := s.pushed ++ [profile]
        mQueue := holder } s.worker := by
  cases point : s.worker with
  | start =>
    rw [point] at shape
    exact Together.push shape profile holder
  | waiting notified =>
    rw [point] at shape
    exact Together.push shape profile holder
  | finished =>
    rw [point] at shape
    exact ⟨Together.push shape.1 profile holder, shape.2⟩
  | drained =>
    rw [point] at shape
    obtain ⟨apart, same⟩ := shape.2.push profile holder
    exact ⟨same.trans shape.1, apart⟩
  | drain final at_ =>
    rw [point] at shape free
    cases final with
    | true => exact Bool.noConfusion free
    | false =>
      cases at_ with
      | test =>
        obtain ⟨apart, same⟩ := Apart.push shape profile holder
        show Apart _ (update s.queues _ _ s.currentReadQueue)
        rwa [same]
      | process current =>
        obtain ⟨rest, front, draining⟩ := shape
        obtain ⟨apart, same⟩ := Apart.push draining profile holder
        exact ⟨rest, same.trans front, apart⟩
      | pop =>
        obtain ⟨current, rest, front, draining⟩ := shape
        obtain ⟨apart, same⟩ := Apart.push draining profile holder
        exact ⟨current, rest, same.trans front, apart⟩
  | _ =>
    rw [point] at free
    exact Bool.noConfusion free

/-- A processed profile is no longer to do. -/
theorem Draining.process {profile : Profile T} {rest : List (Profile T)} {final : Bool}
    (draining : s.Draining (profile :: rest) final) (records : Records T) (worker : Worker T) :
    Draining
      { s with records := records, processed := s.processed ++ [profile], worker := worker } rest
      final := by
  cases final with
  | true =>
    obtain ⟨⟨inside, same, empty, order⟩, before⟩ := draining
    refine ⟨⟨inside, same, empty, ?_⟩, before⟩
    show s.pushed = (s.processed ++ [profile]) ++ rest
    rw [order, List.append_assoc]
    rfl
  | false =>
    obtain ⟨inside, other, order⟩ := draining
    refine ⟨inside, other, ?_⟩
    show s.pushed = (s.processed ++ [profile]) ++ (rest ++ s.queues s.currentWriteQueue)
    rw [order, List.append_assoc]
    rfl

/-- Every step leaves the buffers in the use of the point the thread is at. -/
theorem shape_step (locked : s.Locked) (shape : s.Shape s.worker) (step : Step s party s') :
    s'.Shape s'.worker := by
  cases step with
  | lock point => rw [point] at shape; exact shape
  | again point => rw [point] at shape; exact shape
  | last point => rw [point] at shape; exact ⟨shape, rfl⟩
  | wait point => rw [point] at shape; exact shape
  | wake point => rw [point] at shape; exact shape
  | switchWrite point => rw [point] at shape; exact shape.switchWrite _
  | unlock point => rw [point] at shape; exact shape
  | front point front =>
    rw [point] at shape
    refine ⟨_, front, ?_⟩
    rw [← front]
    exact shape
  | process point =>
    rw [point] at shape
    obtain ⟨rest, front, draining⟩ := shape
    exact ⟨_, rest, front, draining.process _ _⟩
  | pop point =>
    rw [point] at shape
    obtain ⟨profile, rest, front, draining⟩ := shape
    exact draining.pop front _
  | drained point empty =>
    rw [point] at shape
    refine ⟨empty, ?_⟩
    rw [← empty]
    exact shape
  | relock point => rw [point] at shape; exact shape
  | switchRead point => rw [point] at shape; exact shape.2.switchRead shape.1 _
  | finish point empty =>
    rw [point] at shape
    obtain ⟨together, before⟩ := shape
    refine ⟨together, ?_⟩
    have order := together.2.2.2
    rw [empty, List.append_nil] at order
    exact order.symm.trans before.symm
  | lockPush => exact shape
  | push held => exact shape_push (locked.free held (by simp)) shape _ _
  | unlockPush => exact shape
  | lockStop => exact shape
  | setDone => exact shape
  | unlockStop => exact shape
  | notify =>
    show Shape _ s.worker.notify
    cases point : s.worker <;> rw [point] at shape <;> exact shape

/-! ## Runs -/

/-- The thread does not fall asleep after the stop request, and a notification is still to come when
it already sleeps. -/
def Awake (s : Monitor T) : Prop :=
  (s.worker = .wait → s.done = false) ∧
    (s.worker = .waiting false →
      s.done = false ∨ s.mQueue = some .stopped ∨ 0 < s.notifications)

/-- Elsewhere the thread is awake. -/
theorem awake_of_elsewhere (running : s.worker ≠ .wait) (moving : s.worker ≠ .waiting false) :
    s.Awake := ⟨fun waiting => absurd waiting running, fun sleeping => absurd sleeping moving⟩

/-- Whoever uses the lock for something else leaves the thread as it is. -/
theorem Awake.of_other (awake : s.Awake) (other : s.mQueue ≠ some .stopped)
    (worker : s'.worker = s.worker) (done : s'.done = s.done)
    (more : s.notifications ≤ s'.notifications) : s'.Awake := by
  unfold Awake
  rw [worker, done]
  refine ⟨awake.1, fun sleeping => ?_⟩
  rcases awake.2 sleeping with running | stopped | pending
  · exact Or.inl running
  · exact absurd stopped other
  · exact Or.inr (Or.inr (Nat.lt_of_lt_of_le pending more))

/-- Every step keeps the thread from missing the stop request. -/
theorem awake_step (locked : s.Locked) (awake : s.Awake) (step : Step s party s') : s'.Awake := by
  cases step with
  | again point running => exact ⟨fun _ => running, fun sleeping => absurd sleeping (by simp)⟩
  | wait point => exact ⟨fun waiting => absurd waiting (by simp), fun _ => Or.inl (awake.1 point)⟩
  | lockPush profile free => exact awake.of_other (by simp [free]) rfl rfl (Nat.le_refl _)
  | push held => exact awake.of_other (by simp [held]) rfl rfl (Nat.le_refl _)
  | unlockPush held => exact awake.of_other (by simp [held]) rfl rfl (Nat.le_add_right _ _)
  | lockStop free => exact awake.of_other (by simp [free]) rfl rfl (Nat.le_refl _)
  | setDone held =>
    refine ⟨fun waiting => ?_, fun _ => Or.inr (Or.inl rfl)⟩
    have free := locked.free held (by simp)
    rw [show s.worker = .wait from waiting] at free
    exact Bool.noConfusion free
  | unlockStop => exact ⟨awake.1, fun _ => Or.inr (Or.inr (Nat.succ_pos _))⟩
  | notify =>
    have moved : s.worker.notify ≠ .waiting false := by
      cases s.worker <;> simp [Worker.notify]
    refine ⟨fun waiting => awake.1 ?_, fun sleeping => absurd sleeping moved⟩
    cases point : s.worker <;> simp_all [Worker.notify]
  | _ => exact awake_of_elsewhere (by simp) (by simp)

/-- What is recorded is what the processed profiles amount to. -/
def Recorded (s : Monitor T) : Prop := s.records = s.processed.foldl Records.add .empty

/-- Profiles are recorded when they are processed. -/
theorem recorded_step (recorded : s.Recorded) (step : Step s party s') : s'.Recorded := by
  cases step with
  | process =>
    show s.records.add _ = (s.processed ++ [_]).foldl Records.add .empty
    rw [List.foldl_append, recorded]
    rfl
  | _ => exact recorded

/-- What every step keeps. -/
structure Sound (s : Monitor T) : Prop where
  /-- The lock is held where the code of the thread says so. -/
  locked : s.Locked
  /-- The buffers are used as the point of the thread requires. -/
  shape : s.Shape s.worker
  /-- The stop request is not missed. -/
  awake : s.Awake
  /-- Processed profiles are recorded. -/
  recorded : s.Recorded

/-- The producers push to one of the two buffers. -/
def Used (s : Monitor T) : Prop := ∃ todo, s.Together todo ∨ s.Apart todo

/-- While a buffer is drained, the producers push to one of the two buffers. -/
theorem Draining.used {todo : List (Profile T)} {final : Bool} (draining : s.Draining todo final) :
    s.Used := by
  cases final with
  | true => exact ⟨todo, Or.inl draining.1⟩
  | false => exact ⟨todo, Or.inr draining⟩

/-- At every point the producers push to one of the two buffers. -/
theorem used_of_shape {worker : Worker T} (shape : s.Shape worker) : s.Used := by
  cases worker with
  | drain final drain =>
    cases drain with
    | test => exact Draining.used shape
    | process =>
      obtain ⟨rest, -, draining⟩ := shape
      exact draining.used
    | pop =>
      obtain ⟨profile, rest, -, draining⟩ := shape
      exact draining.used
  | switched => exact ⟨_, Or.inr shape⟩
  | drained => exact ⟨_, Or.inr shape.2⟩
  | relocked => exact ⟨_, Or.inr shape.2⟩
  | finished => exact ⟨_, Or.inl shape.1⟩
  | _ => exact ⟨_, Or.inl shape⟩

/-- In the loop the producers push to the other buffer while the thread drains its own. -/
theorem apart_of_drain {drain : Drain T} (shape : s.Shape (.drain false drain)) :
    s.currentReadQueue ≠ s.currentWriteQueue := by
  have apart : ∃ todo, s.Apart todo := by
    cases drain with
    | test => exact ⟨_, shape⟩
    | process =>
      obtain ⟨rest, -, draining⟩ := shape
      exact ⟨_, draining⟩
    | pop =>
      obtain ⟨profile, rest, -, draining⟩ := shape
      exact ⟨_, draining⟩
  obtain ⟨todo, inside, other, -⟩ := apart
  omega

/-! ## The end of a drain -/

/-- While it drains a buffer, the thread has a next step. -/
theorem exists_step (reads : s.Reads) : ∃ s', Step s .worker s' := by
  obtain ⟨final, drain, point⟩ := reads
  cases drain with
  | process profile => exact ⟨_, .process point⟩
  | pop => exact ⟨_, .pop point⟩
  | test =>
    cases queue : s.queues s.currentReadQueue with
    | cons profile rest => exact ⟨_, .front point queue⟩
    | nil =>
      cases final with
      | true => exact ⟨_, .finish point queue⟩
      | false => exact ⟨_, .drained point queue⟩

/-- Every step of the thread leaves less to it. -/
theorem remaining_worker (reads : s.Reads) (step : Step s .worker s') :
    s'.remaining < s.remaining := by
  obtain ⟨final, drain, point⟩ := reads
  cases step with
  | front here front => simp [remaining, here, front]; omega
  | process here => simp [remaining, here]
  | pop here => simp [remaining, here]
  | drained here => simp [remaining, here]
  | finish here => simp [remaining, here]
  | _ => simp_all

/-- Without the lock, the thread does not use the buffer into which producers push. -/
theorem Sound.exclusive (sound : s.Sound) (reads : s.Reads) (other : s.mQueue ≠ some .worker) :
    s.currentReadQueue ≠ s.currentWriteQueue := by
  obtain ⟨final, drain, point⟩ := reads
  have shape := sound.shape
  have locked := sound.locked
  unfold Locked at locked
  rw [point] at shape locked
  cases final with
  | true => exact absurd (locked.mpr rfl) other
  | false => exact apart_of_drain shape

/-- The others leave the thread and its buffer alone. -/
theorem Sound.alone (sound : s.Sound) (reads : s.Reads) (step : Step s party s')
    (other : party ≠ .worker) : s'.worker = s.worker ∧ s'.remaining = s.remaining := by
  cases step with
  | lockPush => exact ⟨rfl, rfl⟩
  | push held =>
    have apart := sound.exclusive reads (by simp [held])
    refine ⟨rfl, ?_⟩
    simp only [remaining, Function.update_of_ne apart]
  | unlockPush => exact ⟨rfl, rfl⟩
  | lockStop => exact ⟨rfl, rfl⟩
  | setDone => exact ⟨rfl, rfl⟩
  | unlockStop => exact ⟨rfl, rfl⟩
  | notify =>
    obtain ⟨final, drain, point⟩ := reads
    have same : s.worker.notify = s.worker := by rw [point, Worker.notify]; simp
    simp only [remaining, same, and_self]
  | _ => exact absurd rfl other

/-- Every step brings the thread closer to the end of the buffer, or leaves it alone. -/
theorem Sound.advances (sound : s.Sound) (reads : s.Reads) (step : Step s party s') :
    s.Advances s' party := by
  cases party with
  | worker => exact remaining_worker reads step
  | producer => exact sound.alone reads step (by simp)
  | stop => exact sound.alone reads step (by simp)
  | notifier => exact sound.alone reads step (by simp)

/-- Buffers in use deliver the profiles. -/
theorem Sound.delivers (sound : s.Sound) : s.Delivers where
  inOrder := by
    obtain ⟨todo, together | apart⟩ := used_of_shape sound.shape
    · exact ⟨todo, together.2.2.2.symm⟩
    · exact ⟨_, apart.2.2.symm⟩
  complete := by
    intro finished
    have shape := sound.shape
    rw [finished] at shape
    exact shape.2
  recorded := sound.recorded
  exclusive := sound.exclusive
  inside := by
    obtain ⟨todo, together | apart⟩ := used_of_shape sound.shape
    · have inside := together.1
      have same := together.2.1
      omega
    · have inside := apart.1
      have other := apart.2.1
      omega
  awake := by
    intro sleeping stopped
    rcases sound.awake.2 sleeping with running | coming
    · exact Bool.noConfusion (running.symm.trans stopped)
    · exact coming
  ends := fun reads => ⟨exists_step reads, sound.advances reads⟩

/-- In every run the profiles are delivered. -/
theorem delivers_of_run {history : List (Monitor T × Party)} (run : (profiling T).Run history s) :
    s.Delivers := by
  apply Sound.delivers
  refine run.invariant ⟨?_, ?_, ?_, rfl⟩ fun sound step => ?_
  · simp [Locked, profiling, Worker.locked]
  · exact ⟨Nat.zero_lt_two, rfl, rfl, rfl⟩
  · exact awake_of_elsewhere (by simp [profiling]) (by simp [profiling])
  · exact ⟨locked_step sound.locked step, shape_step sound.locked sound.shape step,
      awake_step sound.locked sound.awake step, recorded_step sound.recorded step⟩

/-- One profile is pushed while the thread waits and another one while it drains, and then it
stops. -/
theorem delivers_of_run_two : ∃ (history : List (Monitor Nat × Party)) (s : Monitor Nat),
    (profiling Nat).Run history s ∧ s.worker = .finished ∧ s.processed.length = 2 ∧ s.Delivers := by
  have waits := ((System.Run.start (S := profiling Nat)).step (Step.lock rfl rfl)).step
    (Step.again rfl rfl) |>.step (Step.wait rfl)
  have first := waits.step (Step.lockPush ⟨"T-0.1.0", "T-0.1", 5⟩ rfl) |>.step (Step.push rfl)
    |>.step (Step.unlockPush rfl)
  have woken := first.step (Step.wake rfl rfl) |>.step (Step.switchWrite rfl)
    |>.step (Step.unlock rfl)
  have second := woken.step (Step.lockPush ⟨"T-0.1.1", "T-0.1", 7⟩ rfl) |>.step (Step.push rfl)
    |>.step (Step.unlockPush rfl)
  have drained := second.step (Step.front rfl rfl) |>.step (Step.process rfl) |>.step (Step.pop rfl)
    |>.step (Step.drained rfl rfl)
  have stopped := drained.step (Step.lockStop rfl rfl) |>.step (Step.setDone rfl)
    |>.step (Step.unlockStop rfl)
  have followed := stopped.step (Step.relock rfl rfl) |>.step (Step.switchRead rfl)
    |>.step (Step.last rfl rfl)
  have run := followed.step (Step.front rfl rfl) |>.step (Step.process rfl) |>.step (Step.pop rfl)
    |>.step (Step.finish rfl rfl)
  exact ⟨_, _, run, rfl, rfl, delivers_of_run run⟩

end Monitor

end AllScale
