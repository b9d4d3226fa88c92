import Mathlib.Logic.Relation
import AllScale.Lib.Run

/-!
# Shared data

What all fragments of a data item share is created on one locality with the item. A locality that
needs it asks the locality at half its number, which asks further if it does not have the data
either, and every locality on the way back keeps a copy. The lock of an item is not held while its
locality waits for the answer, so any number of such requests overlap.
-/

namespace AllScale

open Relation Transition

/-- Where a request for the shared data of an item has come to. -/
inductive SharedPhase (V : Type) where
  /-- `shared_data` is called at a locality. -/
  | call (here : Nat)
  /-- The innermost call has returned. -/
  | reply (value : V)
  /-- Locality zero does not have the data: the assertion of `shared_data`. -/
  | fault

/-- A request for the shared data of an item. -/
structure SharedRequest (V : Type) where
  /-- The locality that needs the data. -/
  origin : Nat
  /-- The localities whose calls wait for an answer, the innermost one first. -/
  waiting : List Nat
  /-- What happens in the innermost call. -/
  phase : SharedPhase V

/-- A request has come to its end: with an answer for its origin, or with the assertion. -/
def SharedRequest.Ended {V : Type} (request : SharedRequest V) : Prop :=
  (∃ answer, request.phase = .reply answer ∧ request.waiting = []) ∨ request.phase = .fault

/-- One data item on all localities. -/
structure SharedItem (V : Type) where
  /-- `data_item::shared_data` in the `data_item_store` of each locality. -/
  sharedData : Nat → Option V
  /-- The requests so far. -/
  requests : List (SharedRequest V)

namespace SharedItem

variable {V : Type}

/-- `data_item_manager::create` on a locality. -/
def create (creator : Nat) (value : V) : SharedItem V where
  sharedData n := if n = creator then some value else none
  requests := []

/-- The locality that `shared_data` asks; `none` is the assertion. -/
def target (here : Nat) : Option Nat := if here = 0 then none else some ((here - 1) / 2)

/-- `item.shared_data.reset` where it is still null. -/
def keep (sharedData : Nat → Option V) (here : Nat) (value : V) : Nat → Option V :=
  fun n => if n = here then some ((sharedData here).getD value) else sharedData n

/-- The next locked section of a request: the test at the begin of `shared_data`, or what a waiting
call does with the answer. A request that has been answered, or has failed, has none. -/
def proceed (sharedData : Nat → Option V) (request : SharedRequest V) :
    Option ((Nat → Option V) × SharedRequest V) :=
  match request.phase, request.waiting with
  | .call here, waiting =>
    match sharedData here with
    | some value => some (sharedData, { request with phase := .reply value })
    | none =>
      match target here with
      | some next =>
        some (sharedData, { request with waiting := here :: waiting, phase := .call next })
      | none => some (sharedData, { request with phase := .fault })
  | .reply value, here :: waiting =>
    some (keep sharedData here value,
      { request with waiting := waiting, phase := .reply ((sharedData here).getD value) })
  | .reply _, [] => none
  | .fault, _ => none

/-- What happens next. -/
inductive Action where
  /-- A locality calls `shared_data`. -/
  | begin (n : Nat)
  /-- A request goes on. -/
  | proceed (k : Nat)
  deriving DecidableEq

/-- One step. -/
def step (self : SharedItem V) : Action → Option (SharedItem V)
  | .begin n => some { self with requests := self.requests ++ [⟨n, [], .call n⟩] }
  | .proceed k => do
    let request ← self.requests[k]?
    let (sharedData, request') ← SharedItem.proceed self.sharedData request
    some ⟨sharedData, self.requests.set k request'⟩

/-- A data item that is created on a locality, and all requests for what it shares. -/
def sharing (creator : Nat) (value : V) : System (SharedItem V) Action where
  start := create creator value
  step := fun self action self' => self.step action = some self'

/-- A locality is asked, directly or by others, when another one needs the data. -/
abbrev OnWay (upper lower : Nat) : Prop := ReflTransGen (fun n m => target n = some m) lower upper

/-! ## Ways -/

/-- The locality that is asked is on the way. -/
theorem onWay_target {here next : Nat} (asks : target here = some next) : OnWay next here :=
  .single asks

/-- What is on the way from a locality is the locality itself or on the way from the one it asks. -/
theorem onWay_of_ne {upper here : Nat} (onWay : OnWay upper here) (different : upper ≠ here) :
    ∃ next, target here = some next ∧ OnWay upper next := by
  rcases onWay.cases_head with same | ⟨next, asks, further⟩
  · exact absurd same.symm different
  · exact ⟨next, asks, further⟩

/-- The localities between one and locality zero. -/
def depth (n : Nat) : Nat := Nat.log2 (n + 1)

/-- The locality that is asked is nearer to locality zero. -/
theorem depth_target {here next : Nat} (asks : target here = some next) :
    depth here = depth next + 1 := by
  rw [target] at asks
  split at asks
  · cases asks
  · cases asks
    have half : (here - 1) / 2 + 1 = (here + 1) / 2 := by omega
    rw [depth, Nat.log2_def, if_pos (by omega), depth, half]

/-! ## What is stored and answered -/

variable {creator : Nat} {value : V} {sharedData sharedData' : Nat → Option V}
variable {request request' : SharedRequest V}

/-- The copies are copies of what was created, on localities that have the creator on their way. -/
structure Stored (creator : Nat) (value : V) (sharedData : Nat → Option V) : Prop where
  /-- The creator has the data. -/
  origin : sharedData creator = some value
  /-- Every other copy is below the creator. -/
  copies : ∀ n copy, sharedData n = some copy → copy = value ∧ OnWay creator n

/-- How a request stands to the creator. -/
def Directed (creator : Nat) (value : V) (request : SharedRequest V) : Prop :=
  match request.phase with
  | .call here => OnWay here request.origin ∧
    (OnWay creator request.origin → OnWay creator here) ∧ ∀ m ∈ request.waiting, OnWay here m
  | .reply answer => answer = value ∧ OnWay creator request.origin ∧
    ∀ m ∈ request.waiting, OnWay creator m
  | .fault => ¬ OnWay creator request.origin

/-- How many sections of a request are left at most. -/
def weight (request : SharedRequest V) : Nat :=
  match request.phase with
  | .call here => 2 * depth here + request.waiting.length + 1
  | .reply _ => request.waiting.length
  | .fault => 0

/-- What one section of a request does. -/
theorem proceed_cases (taken : proceed sharedData request = some (sharedData', request')) :
    (∃ here answer, request.phase = .call here ∧ sharedData here = some answer ∧
      sharedData' = sharedData ∧ request' = { request with phase := .reply answer }) ∨
    (∃ here next, request.phase = .call here ∧ sharedData here = none ∧ target here = some next ∧
      sharedData' = sharedData ∧
      request' = { request with waiting := here :: request.waiting, phase := .call next }) ∨
    (∃ here, request.phase = .call here ∧ sharedData here = none ∧ target here = none ∧
      sharedData' = sharedData ∧ request' = { request with phase := .fault }) ∨
    ∃ answer here waiting, request.phase = .reply answer ∧ request.waiting = here :: waiting ∧
      sharedData' = keep sharedData here answer ∧
      request' = { request with
        waiting := waiting, phase := .reply ((sharedData here).getD answer) } := by
  obtain ⟨origin, waiting, phase⟩ := request
  cases phase with
  | call here =>
    cases found : sharedData here with
    | some answer =>
      simp only [proceed, found] at taken
      cases taken
      exact Or.inl ⟨here, answer, rfl, found, rfl, rfl⟩
    | none =>
      cases asks : target here with
      | some next =>
        simp only [proceed, found, asks] at taken
        cases taken
        exact Or.inr (Or.inl ⟨here, next, rfl, found, asks, rfl, rfl⟩)
      | none =>
        simp only [proceed, found, asks] at taken
        cases taken
        exact Or.inr (Or.inr (Or.inl ⟨here, rfl, found, asks, rfl, rfl⟩))
  | reply answer =>
    cases waiting with
    | nil => cases taken
    | cons here waiting =>
      cases taken
      exact Or.inr (Or.inr (Or.inr ⟨answer, here, waiting, rfl, rfl, rfl, rfl⟩))
  | fault => cases taken

/-- A section keeps the copies right and the request on its way, and leaves less of it. -/
theorem proceed_directed (stored : Stored creator value sharedData)
    (directed : Directed creator value request)
    (taken : proceed sharedData request = some (sharedData', request')) :
    Stored creator value sharedData' ∧ Directed creator value request' ∧
      request'.origin = request.origin ∧ weight request' < weight request := by
  rcases proceed_cases taken with ⟨here, answer, phase, found, rfl, rfl⟩ |
    ⟨here, next, phase, missing, asks, rfl, rfl⟩ | ⟨here, phase, missing, top, rfl, rfl⟩ |
    ⟨answer, here, waiting, phase, callers, rfl, rfl⟩
  · -- the data is here
    simp only [Directed, phase] at directed
    obtain ⟨right, below⟩ := stored.copies here answer found
    refine ⟨stored, ⟨right, directed.1.trans below, fun m waits => ?_⟩, rfl, ?_⟩
    · exact (directed.2.2 m waits).trans below
    · simp only [weight, phase]
      omega
  · -- the next locality is asked
    simp only [Directed, phase] at directed
    have up := onWay_target asks
    have apart : creator ≠ here := by
      rintro rfl
      rw [stored.origin] at missing
      cases missing
    refine ⟨stored, ⟨directed.1.trans up, fun onWay => ?_, fun m waits => ?_⟩, rfl, ?_⟩
    · obtain ⟨other, asks', further⟩ := onWay_of_ne (directed.2.1 onWay) apart
      rw [asks] at asks'
      cases asks'
      exact further
    · rcases List.mem_cons.mp waits with rfl | waits
      · exact up
      · exact (directed.2.2 m waits).trans up
    · have nearer := depth_target asks
      simp only [weight, phase, List.length_cons]
      omega
  · -- locality zero does not have the data
    simp only [Directed, phase] at directed
    refine ⟨stored, fun onWay => ?_, rfl, by simp [weight, phase]⟩
    have apart : creator ≠ here := by
      rintro rfl
      rw [stored.origin] at missing
      cases missing
    obtain ⟨other, asks, -⟩ := onWay_of_ne (directed.2.1 onWay) apart
    rw [top] at asks
    cases asks
  · -- a caller keeps the answer
    simp only [Directed, phase, callers] at directed
    obtain ⟨right, below, held⟩ := directed
    have onWay := held here List.mem_cons_self
    have kept : (sharedData here).getD answer = value := by
      cases found : sharedData here with
      | none => exact right
      | some copy => exact (stored.copies here copy found).1
    refine ⟨⟨?_, fun n copy found => ?_⟩, ⟨kept, below, fun m waits =>
      held m (List.mem_cons_of_mem _ waits)⟩, rfl, ?_⟩
    · rw [keep]
      split
      · rw [kept]
      · exact stored.origin
    · rw [keep] at found
      split at found
      · rename_i same
        rw [kept] at found
        exact ⟨(Option.some.inj found).symm, by rwa [same]⟩
      · exact stored.copies n copy found
    · simp [weight, phase, callers]

/-! ## Whole runs -/

/-- What holds in every state of a run: the copies are right, and each request is on its way and has
not had more sections than its locality allows. -/
structure Sound (creator : Nat) (value : V) (history : List (SharedItem V × Action))
    (item : SharedItem V) : Prop where
  /-- The copies. -/
  stored : Stored creator value item.sharedData
  /-- The requests. -/
  requests : ∀ k request, item.requests[k]? = some request → Directed creator value request ∧
    history.countP (·.2 = .proceed k) + weight request ≤ 2 * depth request.origin + 1
  /-- Requests that have not begun. -/
  fresh : ∀ k, item.requests.length ≤ k → history.countP (·.2 = .proceed k) = 0

/-- Every run is sound. -/
theorem sound_of_run {history : List (SharedItem V × Action)} {self : SharedItem V}
    (run : (sharing creator value).Run history self) : Sound creator value history self := by
  induction run with
  | start =>
    refine ⟨⟨if_pos rfl, fun n copy found => ?_⟩, fun k request found => (by cases found),
      fun k _ => rfl⟩
    simp only [sharing, create] at found
    split at found
    · rename_i same
      rw [same]
      exact ⟨(Option.some.inj found).symm, .refl⟩
    · cases found
  | @step history self self' action earlier taken ih =>
    cases action with
    | begin n =>
      cases taken
      have counts (k : Nat) : ((self, Action.begin n) :: history).countP (·.2 = .proceed k) =
          history.countP (·.2 = .proceed k) := List.countP_cons_of_neg (by simp)
      refine ⟨ih.stored, fun k request found => ?_, fun k beyond => ?_⟩
      · rw [counts]
        rw [List.getElem?_append] at found
        split at found
        · exact ih.requests k request found
        · rename_i beyond
          have last := List.mem_singleton.mp (List.mem_of_getElem? found)
          rw [last, ih.fresh k (by omega)]
          exact ⟨⟨.refl, id, by simp⟩, by simp [weight]⟩
      · rw [counts]
        rw [List.length_append] at beyond
        exact ih.fresh k (by omega)
    | proceed j =>
      simp only [sharing, step, Option.bind_eq_bind, Option.bind_eq_some_iff] at taken
      obtain ⟨request, found, ⟨sharedData, request'⟩, sections, same⟩ := taken
      cases same
      have inside := (List.getElem?_eq_some_iff.mp found).1
      obtain ⟨directed, bound⟩ := ih.requests j request found
      obtain ⟨stored, onward, origin, less⟩ := proceed_directed ih.stored directed sections
      refine ⟨stored, fun k other there => ?_, fun k beyond => ?_⟩
      · by_cases here : j = k
        · subst here
          rw [List.getElem?_set_self inside] at there
          have changed : request' = other := Option.some.inj there
          rw [List.countP_cons_of_pos (by simp), ← changed, origin]
          exact ⟨onward, by omega⟩
        · rw [List.getElem?_set_ne here] at there
          rw [List.countP_cons_of_neg (by simpa using here)]
          exact ih.requests k other there
      · rw [List.length_set] at beyond
        have here : ¬ j = k := by omega
        rw [List.countP_cons_of_neg (by simpa using here)]
        exact ih.fresh k beyond

/-- Every copy is one of what was created, on a locality that has the creator on its way; and each
request can go on until it ends, after no more sections than twice the depth of its locality, is
answered exactly if the creator is on the way from its locality to locality zero, and then with what
was created. -/
def Shares (creator : Nat) (value : V) (history : List (SharedItem V × Action))
    (self : SharedItem V) : Prop :=
  (∀ n copy, self.sharedData n = some copy → copy = value ∧ OnWay creator n) ∧
  ∀ k request, self.requests[k]? = some request →
    history.countP (·.2 = .proceed k) ≤ 2 * depth request.origin + 1 ∧
    (¬ request.Ended → (self.step (.proceed k)).isSome) ∧
    (request.Ended →
      ((∃ answer, request.phase = .reply answer) ↔ OnWay creator request.origin) ∧
      ∀ answer, request.phase = .reply answer → answer = value)

end SharedItem

end AllScale
