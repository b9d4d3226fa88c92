import Mathlib.Data.Nat.Log
import Mathlib.Algebra.BigOperators.Group.Multiset.Basic
import Mathlib.Algebra.Order.BigOperators.Group.List
import Mathlib.Algebra.Order.Ring.Nat
import AllScale.Lib.Run
import AllScale.Lib.Writes
import AllScale.Scheduler.ThreadPools

/-!
# Thread throttling

The scheduler takes threads of its pools out of use and puts them back into use. In a locked section
a call settles what earlier calls have come to, chooses a pool and threads of it and marks them.
Then it asks the pool for one thread after the other, without the lock, so that calls overlap. At
its end it corrects the number of active threads.
-/

namespace AllScale

open Transition Writes

/-- Where a call is. -/
inductive CallPhase where
  /-- It has the lock released and these threads to ask for. -/
  | asking (left : List Nat)
  /-- It has asked for a thread, and the pool has not done it yet. -/
  | waiting (pu : Nat) (left : List Nat)
  /-- It has returned. -/
  | returned
  deriving DecidableEq

/-- A call of `suspend_threads` or `resume_threads`. -/
structure ThrottleCall where
  kind : Throttle
  /-- `pool_idx`. -/
  pool : Nat
  /-- The local vector `suspend_threads` or `resume_threads`; its size is returned. -/
  selected : List Nat
  phase : CallPhase

/-- The part of the scheduler that throttles threads. -/
structure Throttling where
  /-- `thread_pools_`, with the masks of each pool. -/
  pools : List PoolMasks
  /-- `active_threads`. -/
  activeThreads : Nat
  growing : Bool
  /-- `depth_cut_off_`. -/
  depthCutOff : Nat
  /-- The calls so far. -/
  calls : List ThrottleCall

namespace ThrottleCall

/-- The threads that a call waits for or has still to ask for. -/
def pending (call : ThrottleCall) : List Nat :=
  match call.phase with
  | .asking left => left
  | .waiting pu left => pu :: left
  | .returned => []

/-- The number of threads that a call has got so far. -/
def obtained (call : ThrottleCall) : Nat := call.selected.length - call.pending.length

end ThrottleCall

namespace Throttling

open Throttle

/-- The selection of candidates until there are as many as asked for. -/
def collect (limit : Nat) (mask : Finset Nat) : List Nat → List Nat → List Nat
  | [], selected => selected
  | pu :: rest, selected =>
    if pu ∈ mask then
      if (selected ++ [pu]).length = limit then selected ++ [pu]
      else collect limit mask rest (selected ++ [pu])
    else collect limit mask rest selected

/-- The locked section at the begin of a call. -/
def enter (kind : Throttle) (self : Throttling) (limit : Nat) : Option Throttling :=
  let scans := self.pools.map (PoolMasks.scan kind)
  let pools := scans.map Prod.fst
  let best := PoolChoice.choose (scans.map fun scan => scan.1.candidates kind scan.2)
  let self' : Throttling := { self with
    pools
    activeThreads := (scans.map (·.2.card)).sum
    growing := decide (kind = .resume) }
  if kind.idle best.count then
    some { self' with calls := self.calls ++ [⟨kind, best.pool, [], .returned⟩] }
  else do
    let masks ← pools[best.pool]?
    let selected := collect limit best.mask (kind.order masks.pool.pus) []
    some { self' with
      pools := pools.set best.pool (masks.mark kind selected)
      calls := self.calls ++ [⟨kind, best.pool, selected, .asking selected⟩] }

/-- `suspend_threads` until it releases the lock. -/
def suspendThreads : Throttling → Nat → Option Throttling := enter .suspend

/-- `resume_threads` until it releases the lock. -/
def resumeThreads : Throttling → Nat → Option Throttling := enter .resume

/-- `get_os_thread_count`. -/
def osThreadCount (self : Throttling) : Nat := (self.pools.map (·.pool.pus.length)).sum

/-- What happens next. -/
inductive Action where
  /-- `suspend_threads` is called. -/
  | suspend (limit : Nat)
  /-- `resume_threads` is called. -/
  | resume (limit : Nat)
  /-- A call asks its pool for the next thread. -/
  | ask (k : Nat)
  /-- The pool does what a call has asked for. -/
  | answer (k : Nat)
  /-- A call takes the lock again and returns. -/
  | finish (k : Nat)
  deriving DecidableEq

/-- One step, with the number of localities. -/
def step (localities : Nat) (self : Throttling) : Action → Option Throttling
  | .suspend limit => self.suspendThreads limit
  | .resume limit => self.resumeThreads limit
  | .ask k => do
    let call ← self.calls[k]?
    match call.phase with
    | .asking (pu :: left) =>
      some { self with calls := self.calls.set k { call with phase := .waiting pu left } }
    | _ => none
  | .answer k => do
    let call ← self.calls[k]?
    match call.phase with
    | .waiting pu left => do
      let masks ← self.pools[call.pool]?
      some { self with
        pools := self.pools.set call.pool (masks.answer call.kind pu)
        calls := self.calls.set k { call with phase := .asking left } }
    | _ => none
  | .finish k => do
    let call ← self.calls[k]?
    match call.phase with
    | .asking [] =>
      let selected := call.selected.length
      some { self with
        activeThreads := call.kind.count self.activeThreads selected
        depthCutOff :=
          Nat.clog 2 ((call.kind.numCores self.osThreadCount selected + 2) * localities)
        calls := self.calls.set k { call with phase := .returned } }
    | _ => none

/-- The scheduler after `init`. -/
def init (pools : List ThreadPool) (localities : Nat) : Throttling where
  pools := pools.map ThreadPool.init
  activeThreads := (pools.map (·.pus.length)).sum
  growing := true
  depthCutOff := Nat.clog 2 (((pools.map (·.pus.length)).sum + 2) * localities)
  calls := []

/-- All calls of `suspend_threads` and `resume_threads` on one locality. -/
def throttling (pools : List ThreadPool) (localities : Nat) : System Throttling Action where
  start := init pools localities
  step := fun self action self' => self.step localities action = some self'

end Throttling

/-! ## Selecting threads -/

namespace Throttling

open Throttle

/-- The candidates in order, up to the limit; all of them when the limit is zero. -/
theorem collect_eq {limit : Nat} {mask : Finset Nat} (pus selected : List Nat)
    (below : selected.length < limit ∨ limit = 0) :
    collect limit mask pus selected = selected ++
      if limit = 0 then pus.filter (· ∈ mask)
      else (pus.filter (· ∈ mask)).take (limit - selected.length) := by
  induction pus generalizing selected with
  | nil => simp [collect]
  | cons pu pus ih =>
    rw [collect]
    by_cases found : pu ∈ mask
    · rw [if_pos found, List.filter_cons_of_pos (by simpa using found)]
      by_cases full : (selected ++ [pu]).length = limit
      · have one : limit - selected.length = 1 := by
          rw [List.length_append, List.length_singleton] at full
          omega
        rw [if_pos full, if_neg (by simp at full; omega), one, List.take_succ_cons, List.take_zero]
      · have below' : (selected ++ [pu]).length < limit ∨ limit = 0 := by
          rw [List.length_append, List.length_singleton] at full ⊢
          omega
        rw [if_neg full, ih _ below', List.append_assoc]
        split
        · rfl
        · have more : limit - selected.length = limit - (selected ++ [pu]).length + 1 := by
            rw [List.length_append, List.length_singleton] at below' ⊢
            omega
          rw [more, List.take_succ_cons]
          rfl
    · rw [if_neg found, List.filter_cons_of_neg (by simpa using found), ih _ below]

/-- The selected threads are among the candidates, in the order of the pool. -/
theorem collect_sublist (limit : Nat) (mask : Finset Nat) (pus : List Nat) :
    (collect limit mask pus []).Sublist (pus.filter (· ∈ mask)) := by
  rw [collect_eq pus [] (by simp; omega), List.nil_append]
  split
  · exact .refl _
  · exact List.take_sublist _ _

/-- What calls of a kind have still to get from a pool. -/
def asked (calls : List ThrottleCall) (kind : Throttle) (i : Nat) : Multiset Nat :=
  (calls.map fun call =>
    if call.kind = kind ∧ call.pool = i then (call.pending : Multiset Nat) else 0).sum

variable {calls : List ThrottleCall} {call : ThrottleCall} {k : Nat}

/-- A call that is added adds what it has to get. -/
theorem asked_append (calls : List ThrottleCall) (call : ThrottleCall) (kind : Throttle)
    (i : Nat) :
    asked (calls ++ [call]) kind i = asked calls kind i +
      if call.kind = kind ∧ call.pool = i then (call.pending : Multiset Nat) else 0 := by
  rw [asked, List.map_append, List.sum_append, List.map_singleton, List.sum_singleton, asked]

/-- A call that goes on changes only its own part. -/
theorem asked_set (found : calls[k]? = some call) (phase : CallPhase) (kind : Throttle)
    (i : Nat) :
    (asked (calls.set k { call with phase }) kind i +
      if call.kind = kind ∧ call.pool = i then (call.pending : Multiset Nat) else 0) =
    asked calls kind i + if call.kind = kind ∧ call.pool = i then
      ({ call with phase }.pending : Multiset Nat) else 0 :=
  sum_map_set _ found _

/-- A call that goes on without getting a thread changes nothing. -/
theorem asked_set_same (found : calls[k]? = some call) (phase : CallPhase) (kind : Throttle)
    (i : Nat) (same : { call with phase }.pending = call.pending) :
    asked (calls.set k { call with phase }) kind i = asked calls kind i := by
  have change := asked_set found phase kind i
  rw [same] at change
  exact add_right_cancel change

/-! ## What a call does -/

/-- What holds in every state: the pools have been asked for, or will be asked for, exactly what
the masks say. -/
structure Sound (throttling : Throttling) : Prop where
  masks : ∀ masks ∈ throttling.pools, masks.Sound
  asked : ∀ i masks, throttling.pools[i]? = some masks →
    ∀ kind, asked throttling.calls kind i = (masks.outstanding kind).val
  inside : ∀ call ∈ throttling.calls, call.pending ≠ [] → call.pool < throttling.pools.length

/-- What a call selects from a pool. -/
structure Selects (kind : Throttle) (limit : Nat) (masks : PoolMasks) (selected : List Nat) :
    Prop where
  distinct : selected.Nodup
  ordered : ∀ pu ∈ selected, pu ∈ kind.order masks.pool.pus
  candidate : ∀ pu ∈ selected, pu ∈ masks.settled.candidates kind (masks.current kind)
  limited : limit ≠ 0 → selected.length ≤ limit

variable {kind : Throttle} {limit : Nat} {self self' : Throttling}

/-- What a call does under the lock at its begin. -/
theorem enter_cases (sound : self.Sound) (entered : self.enter kind limit = some self') :
    self'.activeThreads = (self.pools.map fun masks => (masks.current kind).card).sum ∧
    ((∃ i, self'.pools = self.pools.map PoolMasks.settled ∧
      self'.calls = self.calls ++ [⟨kind, i, [], .returned⟩]) ∨
    ∃ i masks selected, self.pools[i]? = some masks ∧ Selects kind limit masks selected ∧
      self'.pools = (self.pools.map PoolMasks.settled).set i (masks.settled.mark kind selected) ∧
      self'.calls = self.calls ++ [⟨kind, i, selected, .asking selected⟩]) := by
  have scans : self.pools.map (PoolMasks.scan kind) =
      self.pools.map fun masks => (masks.settled, masks.current kind) :=
    List.map_congr_left fun masks found => PoolMasks.scan_eq (sound.masks masks found)
  simp only [enter, scans, List.map_map] at entered
  split at entered
  · cases entered
    exact ⟨rfl, .inl ⟨_, rfl, rfl⟩⟩
  · simp only [Option.bind_eq_bind, Option.bind_eq_some_iff] at entered
    obtain ⟨settled, found, same⟩ := entered
    cases same
    refine ⟨rfl, .inr ?_⟩
    rw [List.getElem?_map] at found
    obtain ⟨masks, there, same⟩ := Option.map_eq_some_iff.mp found
    cases same
    refine ⟨_, masks, _, there, ?_, rfl, rfl⟩
    have sublist := collect_sublist limit (PoolChoice.choose (self.pools.map fun masks =>
      masks.settled.candidates kind (masks.current kind))).mask (kind.order masks.pool.pus)
    have mem (pu : Nat) (selected : pu ∈ collect limit _ _ []) :=
      List.mem_filter.mp (sublist.mem selected)
    refine ⟨?_, fun pu selected => (mem pu selected).1, fun pu selected => ?_, ?_⟩
    · refine (sublist.trans List.filter_sublist).nodup ?_
      cases kind with
      | suspend => exact List.nodup_reverse.mpr masks.pool.distinct.drop
      | resume => exact masks.pool.distinct
    · have inMask := of_decide_eq_true (mem pu selected).2
      rcases PoolChoice.choose_eq (self.pools.map fun masks =>
        masks.settled.candidates kind (masks.current kind)) with none | ⟨chosen, -⟩
      · rw [none] at inMask
        exact absurd inMask (Finset.notMem_empty pu)
      · rw [List.getElem?_map] at chosen
        have mask := Option.some.inj ((congrArg (Option.map _) there).symm.trans chosen)
        exact mask ▸ inMask
    · intro positive
      rw [collect_eq _ [] (by simp; omega), if_neg positive, List.nil_append]
      exact List.length_take_le _ _

/-- The begin of a call keeps the masks and the calls in step. -/
theorem sound_enter (sound : self.Sound) (entered : self.enter kind limit = some self') :
    self'.Sound := by
  rcases (enter_cases sound entered).2 with
    ⟨i, pools, calls⟩ | ⟨i, masks, selected, there, selects, pools, calls⟩
  · refine ⟨?_, fun j masks' found other => ?_, fun call found left => ?_⟩
    · rw [pools]
      exact List.forall_mem_map.mpr fun masks found =>
        PoolMasks.settled_sound (sound.masks masks found)
    · rw [pools, List.getElem?_map] at found
      obtain ⟨masks, there, same⟩ := Option.map_eq_some_iff.mp found
      cases same
      rw [calls, asked_append, PoolMasks.outstanding_settled, sound.asked j masks there]
      split <;> exact add_zero _
    · rw [calls] at found
      rw [pools, List.length_map]
      rcases List.mem_append.mp found with found | found
      · exact sound.inside call found left
      · rw [List.mem_singleton.mp found] at left
        exact absurd rfl left
  · have inside := (List.getElem?_eq_some_iff.mp there).1
    have before := sound.masks masks (List.mem_of_getElem? there)
    refine ⟨fun masks' found => ?_, fun j masks' found other => ?_, fun call found left => ?_⟩
    · rw [pools] at found
      rcases List.mem_or_eq_of_mem_set found with found | same
      · obtain ⟨masks, found, same⟩ := List.mem_map.mp found
        exact same ▸ PoolMasks.settled_sound (sound.masks masks found)
      · exact same ▸ PoolMasks.mark_sound before selects.ordered selects.candidate
    · rw [calls, asked_append]
      rw [pools] at found
      by_cases here : i = j
      · subst here
        rw [List.getElem?_set_self (by rwa [List.length_map])] at found
        cases found
        rw [PoolMasks.outstanding_mark before selects.distinct selects.candidate,
          sound.asked i masks there]
        simp only [and_true, ThrottleCall.pending]
      · rw [List.getElem?_set_ne here, List.getElem?_map] at found
        obtain ⟨masks, there, same⟩ := Option.map_eq_some_iff.mp found
        cases same
        rw [if_neg fun both => here both.2, PoolMasks.outstanding_settled,
          sound.asked j masks there, add_zero]
    · rw [calls] at found
      rw [pools, List.length_set, List.length_map]
      rcases List.mem_append.mp found with found | found
      · exact sound.inside call found left
      · rw [List.mem_singleton.mp found]
        exact inside

/-- A call that goes on without getting a thread keeps the masks and the calls in step. -/
theorem sound_set_same (sound : self.Sound) (found : self.calls[k]? = some call)
    (phase : CallPhase) (same : { call with phase }.pending = call.pending)
    (pools : self'.pools = self.pools)
    (calls : self'.calls = self.calls.set k { call with phase }) : self'.Sound where
  masks := pools ▸ sound.masks
  asked i masks there other := by
    rw [calls, asked_set_same found phase other i same]
    exact sound.asked i masks (pools ▸ there) other
  inside other there left := by
    rw [pools]
    rw [calls] at there
    rcases List.mem_or_eq_of_mem_set there with there | changed
    · exact sound.inside other there left
    · rw [changed, same] at left
      rw [changed]
      exact sound.inside call (List.mem_of_getElem? found) left

/-- What a call waits for is outstanding in its pool. -/
theorem outstanding_of_pending (sound : self.Sound) (found : self.calls[k]? = some call)
    {masks : PoolMasks} (there : self.pools[call.pool]? = some masks) {pu : Nat}
    (pending : pu ∈ call.pending) : pu ∈ masks.outstanding call.kind := by
  have change := asked_set found .returned call.kind call.pool
  rw [if_pos ⟨rfl, rfl⟩, if_pos ⟨rfl, rfl⟩] at change
  rw [← Finset.mem_val, ← sound.asked call.pool masks there]
  refine (add_zero (asked self.calls _ _)).subst (change.subst ?_)
  exact Multiset.mem_add.mpr (.inr (Multiset.mem_coe.mpr pending))

/-- What one step can do. -/
inductive Change (localities : Nat) (self : Throttling) : Action → Throttling → Prop
  | suspend {limit : Nat} {self' : Throttling} :
      self.enter .suspend limit = some self' → Change localities self (.suspend limit) self'
  | resume {limit : Nat} {self' : Throttling} :
      self.enter .resume limit = some self' → Change localities self (.resume limit) self'
  | ask {k pu : Nat} {left : List Nat} {call : ThrottleCall} :
      self.calls[k]? = some call → call.phase = .asking (pu :: left) →
      Change localities self (.ask k)
        { self with calls := self.calls.set k { call with phase := .waiting pu left } }
  | answer {k pu : Nat} {left : List Nat} {call : ThrottleCall} {masks : PoolMasks} :
      self.calls[k]? = some call → call.phase = .waiting pu left →
      self.pools[call.pool]? = some masks →
      Change localities self (.answer k) { self with
        pools := self.pools.set call.pool (masks.answer call.kind pu)
        calls := self.calls.set k { call with phase := .asking left } }
  | finish {k : Nat} {call : ThrottleCall} :
      self.calls[k]? = some call → call.phase = .asking [] →
      Change localities self (.finish k) { self with
        activeThreads := call.kind.count self.activeThreads call.selected.length
        depthCutOff := Nat.clog 2
          ((call.kind.numCores self.osThreadCount call.selected.length + 2) * localities)
        calls := self.calls.set k { call with phase := .returned } }

variable {action : Action} {localities : Nat}

/-- Every step is a change. -/
theorem step_change (taken : self.step localities action = some self') :
    Change localities self action self' := by
  cases action with
  | suspend limit => exact .suspend taken
  | resume limit => exact .resume taken
  | ask k =>
    simp only [step, Option.bind_eq_bind, Option.bind_eq_some_iff] at taken
    obtain ⟨call, found, taken⟩ := taken
    split at taken
    · rename_i phase
      cases taken
      exact .ask found phase
    · cases taken
  | answer k =>
    simp only [step, Option.bind_eq_bind, Option.bind_eq_some_iff] at taken
    obtain ⟨call, found, taken⟩ := taken
    split at taken
    · rename_i phase
      simp only [Option.bind_eq_some_iff] at taken
      obtain ⟨masks, there, same⟩ := taken
      cases same
      exact .answer found phase there
    · cases taken
  | finish k =>
    simp only [step, Option.bind_eq_bind, Option.bind_eq_some_iff] at taken
    obtain ⟨call, found, taken⟩ := taken
    split at taken
    · rename_i phase
      cases taken
      exact .finish found phase
    · cases taken

/-- When a pool does what a call has asked for, the masks and the calls stay in step. -/
theorem sound_answer (sound : self.Sound) (found : self.calls[k]? = some call) {pu : Nat}
    {left : List Nat} (phase : call.phase = .waiting pu left) {masks : PoolMasks}
    (there : self.pools[call.pool]? = some masks) (pools : self'.pools =
      self.pools.set call.pool (masks.answer call.kind pu))
    (calls : self'.calls = self.calls.set k { call with phase := .asking left }) :
    self'.Sound := by
  have inside := (List.getElem?_eq_some_iff.mp there).1
  have before := sound.masks masks (List.mem_of_getElem? there)
  have waits : call.pending = pu :: left := by rw [ThrottleCall.pending, phase]
  have pending : pu ∈ masks.outstanding call.kind :=
    outstanding_of_pending sound found there (waits ▸ List.mem_cons_self)
  refine ⟨fun masks' found => ?_, fun i masks' there' other => ?_, fun other there' open' => ?_⟩
  · rw [pools] at found
    rcases List.mem_or_eq_of_mem_set found with found | same
    · exact sound.masks masks' found
    · exact same ▸ PoolMasks.answer_sound before pending
  · have change := asked_set found (.asking left) other i
    rw [waits, ← calls] at change
    rw [pools] at there'
    by_cases here : call.pool = i
    · subst here
      rw [List.getElem?_set_self inside] at there'
      cases there'
      rw [PoolMasks.outstanding_answer before pending]
      rw [sound.asked _ masks there] at change
      by_cases same : call.kind = other
      · subst same
        rw [if_pos ⟨rfl, rfl⟩, if_pos ⟨rfl, rfl⟩] at change
        have restored : pu ::ₘ asked self'.calls call.kind call.pool =
            (masks.outstanding call.kind).val := by
          refine add_right_cancel (b := (left : Multiset Nat)) ?_
          rw [Multiset.cons_add, ← Multiset.add_cons]
          exact change
        rw [if_pos rfl, Finset.erase_val, ← restored, Multiset.erase_cons_head]
      · rw [if_neg fun both => same both.1, if_neg fun both => same both.1] at change
        rw [if_neg same]
        exact add_right_cancel change
    · rw [List.getElem?_set_ne here] at there'
      rw [if_neg fun both => here both.2, if_neg fun both => here both.2] at change
      rw [← sound.asked i masks' there']
      exact add_right_cancel change
  · rw [pools, List.length_set]
    rw [calls] at there'
    rcases List.mem_or_eq_of_mem_set there' with there' | same
    · exact sound.inside other there' open'
    · rw [same]
      exact sound.inside call (List.mem_of_getElem? found) (waits ▸ List.cons_ne_nil _ _)

/-- Every step keeps the masks and the calls in step. -/
theorem sound_step (sound : self.Sound) (taken : self.step localities action = some self') :
    self'.Sound := by
  cases step_change taken with
  | suspend entered => exact sound_enter sound entered
  | resume entered => exact sound_enter sound entered
  | @ask k pu left call found phase =>
    have same : call.pending = pu :: left := by rw [ThrottleCall.pending, phase]
    exact sound_set_same sound found (.waiting pu left) same.symm rfl rfl
  | answer found phase there => exact sound_answer sound found phase there rfl rfl
  | @finish k call found phase =>
    have same : call.pending = [] := by rw [ThrottleCall.pending, phase]
    exact sound_set_same sound found .returned same.symm rfl rfl

/-- After `init` there are no calls, and nothing is marked. -/
theorem sound_init (pools : List ThreadPool) (localities : Nat) :
    (init pools localities).Sound where
  masks := List.forall_mem_map.mpr fun pool _ => pool.init_sound
  asked i masks there kind := by
    rw [init, List.getElem?_map] at there
    obtain ⟨pool, -, same⟩ := Option.map_eq_some_iff.mp there
    cases same
    rw [pool.outstanding_init]
    rfl
  inside call found := absurd found List.not_mem_nil

end Throttling

end AllScale
