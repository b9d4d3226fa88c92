import AllScale.Scheduler.Throttling

/-!
# How many threads are active

What the calls of `suspend_threads` and `resume_threads` return adds up to the number of threads in
use, however the calls overlap. The number that the scheduler keeps is right when they do not.
-/

namespace AllScale

open Transition Writes

namespace Throttling

open Throttle

variable {call : ThrottleCall} {k : Nat} {kind : Throttle} {limit : Nat} {self self' : Throttling}
  {action : Action} {localities : Nat}

/-! ## How many threads are in use -/

/-- The number of threads in use. -/
def inUse (self : Throttling) : Nat := (self.pools.map (·.used.card)).sum

/-- The number of threads that the calls of a kind have got so far. A call that has returned has got
as many as it returns. -/
def obtained (kind : Throttle) (calls : List ThrottleCall) : Nat :=
  (calls.map fun call => if call.kind = kind then call.obtained else 0).sum

/-- The pools with the threads that are in use, which no call changes itself. -/
def usage (self : Throttling) : List (ThreadPool × Finset Nat) :=
  self.pools.map fun masks => (masks.pool, masks.used)

/-- The begin of a call leaves the threads as they are. -/
theorem usage_enter (sound : self.Sound) (entered : self.enter kind limit = some self') :
    self'.usage = self.usage := by
  have settled : (self.pools.map PoolMasks.settled).map (fun masks => (masks.pool, masks.used)) =
      self.usage := List.map_map
  rcases (enter_cases sound entered).2 with
    ⟨_, pools, -⟩ | ⟨i, masks, selected, there, -, pools, -⟩
  · rw [usage, pools, settled]
  · have same : self.usage[i]? = some (masks.pool, masks.used) := by
      rw [usage, List.getElem?_map, there]
      rfl
    have marked : ((masks.settled.mark kind selected).pool,
        (masks.settled.mark kind selected).used) = (masks.pool, masks.used) := by
      cases kind <;> rfl
    rw [usage, pools, List.map_set, settled, marked, set_eq_self same]

/-- The number of threads in use is a sum over the pools. -/
theorem inUse_eq (self : Throttling) : self.inUse = (self.usage.map (·.2.card)).sum := by
  rw [usage, List.map_map]
  rfl

/-- The pools of a scheduler. -/
theorem pools_eq (self : Throttling) : self.pools.map (·.pool) = self.usage.map Prod.fst := by
  rw [usage, List.map_map]
  rfl

/-- What the pool of a call has done makes the call get one more thread, and changes the number of
threads in use by one. -/
theorem inUse_answer {masks : PoolMasks} {pu : Nat} {i : Nat}
    (there : self.pools[i]? = some masks) (pending : pu ∈ masks.outstanding kind) :
    ((self.pools.set i (masks.answer kind pu)).map (·.used.card)).sum +
        (if kind = .suspend then 1 else 0) = self.inUse + if kind = .resume then 1 else 0 := by
  have change := sum_map_set (fun masks : PoolMasks => masks.used.card) there
    (masks.answer kind pu)
  change _ = self.inUse + _ at change
  cases kind with
  | suspend =>
    have removed := Finset.card_erase_add_one (Finset.mem_inter.mp pending).2
    simp only [PoolMasks.answer, reduceCtorEq, if_true, if_false] at change ⊢
    omega
  | resume =>
    have added := Finset.card_insert_of_notMem (Finset.mem_sdiff.mp pending).2
    simp only [PoolMasks.answer, reduceCtorEq, if_true, if_false] at change ⊢
    omega

/-- What holds of the number of threads in use in every state: the calls have taken out of use and
put back into use as many threads as they have got. -/
structure Balanced (pools : List ThreadPool) (throttling : Throttling) : Prop where
  same : throttling.pools.map (·.pool) = pools
  left : ∀ call ∈ throttling.calls, call.pending.length ≤ call.selected.length
  total : throttling.inUse + obtained .suspend throttling.calls =
    (pools.map (·.pus.length)).sum + obtained .resume throttling.calls

variable {pools : List ThreadPool}

/-- What a call gets counts for its kind. -/
theorem obtained_set (found : self.calls[k]? = some call) (phase : CallPhase) (kind : Throttle) :
    (obtained kind (self.calls.set k { call with phase }) +
      if call.kind = kind then call.obtained else 0) =
    obtained kind self.calls + if call.kind = kind then { call with phase }.obtained else 0 :=
  sum_map_set _ found _

/-- A call gets one more thread when the pool does what it waits for. -/
theorem obtained_answer (balanced : self.Balanced pools) (found : self.calls[k]? = some call)
    {pu : Nat} {left : List Nat} (phase : call.phase = .waiting pu left) :
    { call with phase := .asking left }.obtained = call.obtained + 1 := by
  have enough := balanced.left call (List.mem_of_getElem? found)
  simp only [ThrottleCall.pending, phase, List.length_cons] at enough
  simp only [ThrottleCall.obtained, ThrottleCall.pending, phase, List.length_cons]
  omega

/-- A call that goes on without getting a thread changes no number. -/
theorem balanced_set_same (balanced : self.Balanced pools) (found : self.calls[k]? = some call)
    (phase : CallPhase) (same : { call with phase }.pending = call.pending)
    (unchanged : self'.pools = self.pools)
    (calls : self'.calls = self.calls.set k { call with phase }) : self'.Balanced pools := by
  have counts (kind : Throttle) : obtained kind self'.calls = obtained kind self.calls := by
    have change := obtained_set found phase kind
    have equal : { call with phase }.obtained = call.obtained := by
      rw [ThrottleCall.obtained, same, ThrottleCall.obtained]
    rw [equal] at change
    exact calls ▸ Nat.add_right_cancel change
  refine ⟨unchanged ▸ balanced.same, fun other there => ?_, ?_⟩
  · rw [calls] at there
    rcases List.mem_or_eq_of_mem_set there with there | changed
    · exact balanced.left other there
    · rw [changed, same]
      exact balanced.left call (List.mem_of_getElem? found)
  · rw [counts, counts, inUse, unchanged]
    exact balanced.total

/-- The begin of a call changes no number. -/
theorem balanced_enter (sound : self.Sound) (balanced : self.Balanced pools)
    (entered : self.enter kind limit = some self') : self'.Balanced pools := by
  have usage := usage_enter sound entered
  have added : ∃ call, self'.calls = self.calls ++ [call] ∧
      call.pending.length ≤ call.selected.length ∧ call.obtained = 0 := by
    rcases (enter_cases sound entered).2 with ⟨i, -, calls⟩ | ⟨i, _, selected, -, -, -, calls⟩
    · exact ⟨_, calls, le_rfl, rfl⟩
    · exact ⟨_, calls, le_rfl, Nat.sub_self _⟩
  obtain ⟨call, calls, left, nothing⟩ := added
  have counts (kind : Throttle) : obtained kind self'.calls = obtained kind self.calls := by
    rw [obtained, calls, List.map_append, List.sum_append, List.map_singleton,
      List.sum_singleton, nothing, ite_self, Nat.add_zero, obtained]
  refine ⟨?_, fun other there => ?_, ?_⟩
  · rw [pools_eq, usage, ← pools_eq]
    exact balanced.same
  · rw [calls] at there
    rcases List.mem_append.mp there with there | there
    · exact balanced.left other there
    · rw [List.mem_singleton.mp there]
      exact left
  · rw [counts, counts, inUse_eq, usage, ← inUse_eq]
    exact balanced.total

/-- Every step keeps the numbers. -/
theorem balanced_step (sound : self.Sound) (balanced : self.Balanced pools)
    (taken : self.step localities action = some self') : self'.Balanced pools := by
  cases step_change taken with
  | suspend entered => exact balanced_enter sound balanced entered
  | resume entered => exact balanced_enter sound balanced entered
  | @ask k pu left call found phase =>
    have same : call.pending = pu :: left := by rw [ThrottleCall.pending, phase]
    exact balanced_set_same balanced found (.waiting pu left) same.symm rfl rfl
  | @finish k call found phase =>
    have same : call.pending = [] := by rw [ThrottleCall.pending, phase]
    exact balanced_set_same balanced found .returned same.symm rfl rfl
  | @answer k pu left call masks found phase there =>
    have waits : call.pending = pu :: left := by rw [ThrottleCall.pending, phase]
    have pending := outstanding_of_pending sound found there (waits ▸ List.mem_cons_self)
    have enough := balanced.left call (List.mem_of_getElem? found)
    rw [waits, List.length_cons] at enough
    have more := obtained_answer balanced found phase
    have total := balanced.total
    have suspended := obtained_set found (.asking left) .suspend
    have resumed := obtained_set found (.asking left) .resume
    refine ⟨?_, fun other there => ?_, ?_⟩
    · have same : (masks.answer call.kind pu).pool = masks.pool := by
        cases call.kind <;> rfl
      rw [← balanced.same, List.map_set, same]
      exact set_eq_self (by rw [List.getElem?_map, there]; rfl)
    · rcases List.mem_or_eq_of_mem_set there with there | changed
      · exact balanced.left other there
      · rw [changed]
        exact Nat.le_of_succ_le enough
    · have change := inUse_answer there pending
      rw [more] at suspended resumed
      rw [inUse]
      cases kind : call.kind with
      | suspend =>
        simp only [kind, reduceCtorEq, if_true, if_false] at change suspended resumed ⊢
        omega
      | resume =>
        simp only [kind, reduceCtorEq, if_true, if_false] at change suspended resumed ⊢
        omega

/-- The numbers after `init`. -/
theorem balanced_init (pools : List ThreadPool) (localities : Nat) :
    (init pools localities).Balanced pools where
  same := by
    rw [init, List.map_map]
    exact List.map_id _
  left call found := absurd found List.not_mem_nil
  total := by
    have counts : ((init pools localities).pools.map (·.used.card)) =
        pools.map (·.pus.length) := by
      rw [init, List.map_map]
      exact List.map_congr_left fun pool _ => List.toFinset_card_of_nodup pool.distinct
    rw [inUse, counts]
    rfl

/-- In every state of a run the masks, the calls and the numbers are in step. -/
theorem sound_of_run {history : List (Throttling × Action)}
    (run : (throttling pools localities).Run history self) :
    self.Sound ∧ self.Balanced pools :=
  run.invariant (P := fun self => self.Sound ∧ self.Balanced pools)
    ⟨sound_init pools localities, balanced_init pools localities⟩
    fun before taken => ⟨sound_step before.1 taken, balanced_step before.1 before.2 taken⟩

/-- What holds in every state. -/
structure Throttles (pools : List ThreadPool) (localities : Nat) (throttling : Throttling) :
    Prop where
  /-- The pools are those of `init`. -/
  same : throttling.pools.map (·.pool) = pools
  /-- The first thread of a pool is in use. -/
  first : ∀ masks ∈ throttling.pools, ∀ pu ∈ masks.pool.pus.take minThreads, pu ∈ masks.used
  /-- A thread whose suspension is to come is in use. -/
  suspends : ∀ i masks, throttling.pools[i]? = some masks →
    ∀ pu ∈ asked throttling.calls .suspend i, pu ∈ masks.used
  /-- A thread whose resumption is to come is one of the pool's and is not in use. -/
  resumes : ∀ i masks, throttling.pools[i]? = some masks →
    ∀ pu ∈ asked throttling.calls .resume i, pu ∈ masks.pool.pus ∧ pu ∉ masks.used
  /-- No two calls have a thread to come. -/
  once : ∀ i masks, throttling.pools[i]? = some masks →
    (asked throttling.calls .suspend i + asked throttling.calls .resume i).Nodup
  /-- The numbers that the calls return say how many threads are in use. -/
  total : throttling.inUse + obtained .suspend throttling.calls =
    (pools.map (·.pus.length)).sum + obtained .resume throttling.calls
  /-- A call that has not returned can go on. -/
  proceeds : ∀ k call, throttling.calls[k]? = some call → call.phase ≠ .returned →
    ∃ action ∈ [Action.ask k, .answer k, .finish k], (throttling.step localities action).isSome

/-- In every run, however the calls overlap, a pool is asked to suspend a thread only while it is in
use and to resume it only while it is not, and only once at a time; its first thread stays in use;
and the calls return how many threads they have taken out of use or put back. -/
theorem throttles_of_run {history : List (Throttling × Action)}
    (run : (throttling pools localities).Run history self) : Throttles pools localities self := by
  obtain ⟨sound, balanced⟩ := sound_of_run run
  have masks {i : Nat} {masks : PoolMasks} (there : self.pools[i]? = some masks) : masks.Sound :=
    sound.masks masks (List.mem_of_getElem? there)
  have pending {i : Nat} {masks : PoolMasks} (there : self.pools[i]? = some masks)
      {kind : Throttle} {pu : Nat} (found : pu ∈ asked self.calls kind i) :
      pu ∈ masks.outstanding kind := by
    rwa [sound.asked i masks there] at found
  refine ⟨balanced.same, fun masks found => (sound.masks masks found).first,
    fun i masks there pu found => (Finset.mem_inter.mp (pending there found)).2,
    fun i masks' there pu found => ?_, fun i masks' there => ?_, balanced.total,
    fun k call found going => ?_⟩
  · have missing := Finset.mem_sdiff.mp (pending there found)
    have inside := (masks there).resuming missing.1
    rw [(masks there).initial, List.mem_toFinset] at inside
    exact ⟨inside, missing.2⟩
  · rw [sound.asked i masks' there, sound.asked i masks' there]
    refine Multiset.nodup_add.mpr ⟨Finset.nodup _, Finset.nodup _, ?_⟩
    refine Multiset.disjoint_left.mpr fun {pu} suspended resumed => ?_
    exact Finset.disjoint_left.mp (masks there).disjoint (Finset.mem_inter.mp suspended).1
      (Finset.mem_sdiff.mp resumed).1
  · match phase : call.phase with
    | .asking [] =>
      exact ⟨.finish k, by simp, by simp [step, found, phase]⟩
    | .asking (pu :: left) =>
      exact ⟨.ask k, by simp, by simp [step, found, phase]⟩
    | .waiting pu left =>
      have inside := sound.inside call (List.mem_of_getElem? found)
        (by simp [ThrottleCall.pending, phase])
      exact ⟨.answer k, by simp, by simp [step, found, phase, inside]⟩
    | .returned => exact absurd phase going

/-- A pool of four threads and one of two. -/
def twoPools : List ThreadPool :=
  [⟨[0, 2, 4, 6], by decide, by decide⟩, ⟨[1, 3], by decide, by decide⟩]

/-- Two overlapping calls take two threads and one thread out of use, and a third one puts one of
them back before the second one returns. -/
theorem throttles_of_run_two : ∃ (history : List (Throttling × Action)) (self : Throttling),
    self.inUse = 4 ∧ obtained .suspend self.calls = 3 ∧ obtained .resume self.calls = 1 ∧
      (throttling twoPools 1).Run history self ∧ Throttles twoPools 1 self := by
  have computed : ∃ self, [.suspend 2, .suspend 1, .ask 0, .ask 1, .answer 1, .answer 0, .resume 1,
      .ask 0, .ask 2, .answer 2, .answer 0, .finish 2, .finish 1, .finish 0].foldlM (step 1)
        (init twoPools 1) = some self ∧ self.inUse = 4 ∧ obtained .suspend self.calls = 3 ∧
        obtained .resume self.calls = 1 := ⟨_, rfl, rfl, rfl, rfl⟩
  obtain ⟨self, steps, inUse, suspended, resumed⟩ := computed
  obtain ⟨history, run, -⟩ :=
    (System.Run.start (S := throttling twoPools 1)).exists_of_foldlM id _ steps
  exact ⟨history, self, inUse, suspended, resumed, run, throttles_of_run run⟩

/-! ## One call after the other -/

/-- A call begins only when all earlier ones have returned. -/
def Alone (self : Throttling) (action : Action) : Prop :=
  match action with
  | .suspend _ | .resume _ => ∀ call ∈ self.calls, call.phase = .returned
  | _ => True

/-- Whether a call begins alone is decided by the calls so far. -/
instance decidableAlone (self : Throttling) (action : Action) : Decidable (self.Alone action) :=
  match action with
  | .suspend _ | .resume _ =>
    inferInstanceAs (Decidable (∀ call ∈ self.calls, call.phase = .returned))
  | .ask _ | .answer _ | .finish _ => inferInstanceAs (Decidable True)

/-- Without a call, the number of active threads is that of the threads in use; during a call, it is
the number before the call. -/
def Counted (self : Throttling) : Prop :=
  ((∀ call ∈ self.calls, call.phase = .returned) ∧ self.activeThreads = self.inUse) ∨
  ∃ earlier call, self.calls = earlier ++ [call] ∧ (∀ other ∈ earlier, other.phase = .returned) ∧
    call.phase ≠ .returned ∧
    self.activeThreads + (if call.kind = .resume then call.obtained else 0) =
      self.inUse + if call.kind = .suspend then call.obtained else 0

/-- When all calls have returned, nothing is outstanding. -/
theorem outstanding_eq_empty (sound : self.Sound)
    (returned : ∀ call ∈ self.calls, call.phase = .returned) {masks : PoolMasks}
    (found : masks ∈ self.pools) (kind : Throttle) : masks.outstanding kind = ∅ := by
  obtain ⟨i, there⟩ := List.mem_iff_getElem?.mp found
  have zero : asked self.calls kind i = 0 := by
    refine List.sum_eq_zero (List.forall_mem_map.mpr fun call found => ?_)
    rw [ThrottleCall.pending, returned call found]
    exact ite_self _
  rw [← Finset.val_eq_zero, ← sound.asked i masks there, zero]

/-- A call that begins alone counts the threads in use. -/
theorem counted_enter (sound : self.Sound)
    (returned : ∀ call ∈ self.calls, call.phase = .returned)
    (entered : self.enter kind limit = some self') : self'.Counted := by
  have usage := usage_enter sound entered
  obtain ⟨active, cases⟩ := enter_cases sound entered
  have inUse : self'.activeThreads = self'.inUse := by
    rw [active, inUse_eq, usage, ← inUse_eq, Throttling.inUse]
    refine congrArg List.sum (List.map_congr_left fun masks found => ?_)
    have suspending := outstanding_eq_empty sound returned found .suspend
    have resuming := outstanding_eq_empty sound returned found .resume
    cases kind with
    | suspend =>
      rw [PoolMasks.current, Finset.sdiff_eq_self_of_disjoint]
      exact (Finset.disjoint_iff_inter_eq_empty.mpr suspending).symm
    | resume =>
      have inside := Finset.sdiff_eq_empty_iff_subset.mp resuming
      rw [PoolMasks.current, Finset.union_eq_left.mpr inside]
  rcases cases with ⟨i, -, calls⟩ | ⟨i, masks, selected, -, -, -, calls⟩
  · refine .inl ⟨fun call found => ?_, inUse⟩
    rw [calls] at found
    rcases List.mem_append.mp found with found | found
    · exact returned call found
    · rw [List.mem_singleton.mp found]
  · refine .inr ⟨_, _, calls, returned, by simp, ?_⟩
    have zero : (⟨kind, i, selected, .asking selected⟩ : ThrottleCall).obtained = 0 :=
      Nat.sub_self _
    rw [zero, ite_self, ite_self, inUse]

/-- The call that goes on is the last one. -/
theorem eq_last {earlier : List ThrottleCall} {last : ThrottleCall}
    (calls : self.calls = earlier ++ [last]) (found : self.calls[k]? = some call)
    (returned : ∀ other ∈ earlier, other.phase = .returned) (going : call.phase ≠ .returned) :
    call = last ∧ ∀ call', self.calls.set k call' = earlier ++ [call'] := by
  rw [calls] at found ⊢
  by_cases before : k < earlier.length
  · rw [List.getElem?_append_left before] at found
    exact absurd (returned call (List.mem_of_getElem? found)) going
  · have bound := (List.getElem?_eq_some_iff.mp found).1
    rw [List.length_append, List.length_singleton] at bound
    have here : k = earlier.length := by omega
    subst here
    rw [List.getElem?_concat_length] at found
    refine ⟨(Option.some.inj found).symm, fun call' => ?_⟩
    rw [List.set_append_right _ _ le_rfl, Nat.sub_self]
    rfl

/-- No more threads are in use than there are. -/
theorem inUse_le (sound : self.Sound) (balanced : self.Balanced pools) :
    self.inUse ≤ (pools.map (·.pus.length)).sum := by
  rw [← balanced.same, List.map_map]
  refine List.sum_le_sum fun masks found => ?_
  have inside := (sound.masks masks found).used
  rw [(sound.masks masks found).initial] at inside
  exact (Finset.card_le_card inside).trans (List.toFinset_card_le _)

/-- The end of a call that was alone corrects the number of active threads. -/
theorem counted_finish {call : ThrottleCall} (phase : call.phase = .asking [])
    (fits : self.inUse < 2 ^ 64)
    (counted : self.activeThreads + (if call.kind = .resume then call.obtained else 0) =
      self.inUse + if call.kind = .suspend then call.obtained else 0) :
    call.kind.count self.activeThreads call.selected.length = self.inUse := by
  have all : call.obtained = call.selected.length := by
    rw [ThrottleCall.obtained, ThrottleCall.pending, phase]
    rfl
  rw [all] at counted
  cases kind : call.kind with
  | suspend =>
    simp only [kind, reduceCtorEq, if_true, if_false] at counted
    rw [Throttle.count]
    omega
  | resume =>
    simp only [kind, reduceCtorEq, if_true, if_false] at counted
    rw [Throttle.count]
    omega

/-- Every step of calls that do not overlap keeps the number of active threads. -/
theorem counted_step (fits : (pools.map (·.pus.length)).sum < 2 ^ 64) (sound : self.Sound)
    (balanced : self.Balanced pools) (counted : self.Counted) (alone : self.Alone action)
    (taken : self.step localities action = some self') : self'.Counted := by
  -- a call that goes on is the last one, and the others have returned
  have last {k : Nat} {call : ThrottleCall} (found : self.calls[k]? = some call)
      (going : call.phase ≠ .returned) : ∃ earlier,
      (∀ call', self.calls.set k call' = earlier ++ [call']) ∧
      (∀ other ∈ earlier, other.phase = .returned) ∧
      self.activeThreads + (if call.kind = .resume then call.obtained else 0) =
        self.inUse + if call.kind = .suspend then call.obtained else 0 := by
    rcases counted with ⟨returned, -⟩ | ⟨earlier, call', calls, returned, -, active⟩
    · exact absurd (returned call (List.mem_of_getElem? found)) going
    · obtain ⟨same, set⟩ := eq_last calls found returned going
      exact ⟨earlier, set, returned, same ▸ active⟩
  have change := step_change taken
  cases change with
  | suspend entered => exact counted_enter sound alone entered
  | resume entered => exact counted_enter sound alone entered
  | @ask k pu left call found phase =>
    obtain ⟨earlier, set, returned, active⟩ := last found (by simp [phase])
    refine .inr ⟨earlier, _, set _, returned, by simp, ?_⟩
    have same : { call with phase := .waiting pu left }.obtained = call.obtained := by
      simp only [ThrottleCall.obtained, ThrottleCall.pending, phase]
    rw [same]
    exact active
  | @finish k call found phase =>
    obtain ⟨earlier, set, returned, active⟩ := last found (by simp [phase])
    refine .inl ⟨fun other there => ?_, ?_⟩
    · rw [set] at there
      rcases List.mem_append.mp there with there | there
      · exact returned other there
      · rw [List.mem_singleton.mp there]
    · exact counted_finish phase ((inUse_le sound balanced).trans_lt fits) active
  | @answer k pu left call masks found phase there =>
    obtain ⟨earlier, set, returned, active⟩ := last found (by simp [phase])
    have waits : call.pending = pu :: left := by rw [ThrottleCall.pending, phase]
    have pending := outstanding_of_pending sound found there (waits ▸ List.mem_cons_self)
    have change := inUse_answer there pending
    have more := obtained_answer balanced found phase
    refine .inr ⟨earlier, _, set _, returned, by simp, ?_⟩
    rw [more, inUse]
    cases kind : call.kind with
    | suspend =>
      simp only [kind, reduceCtorEq, if_true, if_false] at change active ⊢
      omega
    | resume =>
      simp only [kind, reduceCtorEq, if_true, if_false] at change active ⊢
      omega

/-- When calls do not overlap, `active_threads` is the number of threads in use whenever all calls
have returned. -/
theorem activeThreads_of_run {history : List (Throttling × Action)}
    (fits : (pools.map (·.pus.length)).sum < 2 ^ 64)
    (run : (throttling pools localities).Run history self)
    (alone : System.Meets Alone history) (returned : ∀ call ∈ self.calls, call.phase = .returned) :
    self.activeThreads = self.inUse := by
  have start : (init pools localities).Counted := by
    refine .inl ⟨fun _ found => absurd found List.not_mem_nil, ?_⟩
    have total := (balanced_init pools localities).total
    exact total.symm
  have counted := (run.always
    (P := fun self => (self.Sound ∧ self.Balanced pools) ∧ self.Counted)
    ⟨⟨sound_init pools localities, balanced_init pools localities⟩, start⟩
    (fun before alone taken => ⟨⟨sound_step before.1.1 taken,
      balanced_step before.1.1 before.1.2 taken⟩,
      counted_step fits before.1.1 before.1.2 before.2 alone taken⟩) alone).1.2
  rcases counted with ⟨-, active⟩ | ⟨earlier, call, calls, -, going, -⟩
  · exact active
  · exact absurd (returned call (by rw [calls]; simp)) going

/-- Two threads are taken out of use, and then one is put back. -/
theorem activeThreads_of_run_two : ∃ self : Throttling,
    self.inUse = 5 ∧ self.calls.length = 2 ∧ self.activeThreads = self.inUse := by
  have computed : ∃ self, [.suspend 2, .ask 0, .answer 0, .ask 0, .answer 0, .finish 0, .resume 1,
      .ask 1, .answer 1, .finish 1].foldlM
        (fun self action => if Alone self action then step 1 self action else none)
        (init twoPools 1) = some self ∧ self.inUse = 5 ∧ self.calls.length = 2 ∧
        ∀ call ∈ self.calls, call.phase = .returned := ⟨_, rfl, rfl, rfl, by decide⟩
  obtain ⟨self, steps, inUse, two, returned⟩ := computed
  have begins := System.Run.start (S := throttling twoPools 1)
  obtain ⟨history, run, alone, -⟩ := begins.exists_meets_of_foldlM (Q := Alone)
    (fun taken => by
      split at taken
      · rename_i alone
        exact ⟨alone, taken⟩
      · cases taken) _ (fun _ found => absurd found List.not_mem_nil) steps
  exact ⟨self, inUse, two, activeThreads_of_run (by decide) run alone returned⟩

-- The second call counts the pending suspensions of the first one as done, which then counts them
-- again.
example : ([.suspend 2, .suspend 1, .ask 0, .answer 0, .ask 0, .answer 0, .ask 1, .answer 1,
    .finish 0, .finish 1].foldlM (step 1) (init twoPools 1)).map
      (fun self => (self.inUse, self.activeThreads)) = some (3, 1) := rfl

end Throttling

end AllScale