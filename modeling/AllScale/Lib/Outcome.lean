import Mathlib.Tactic.Common

/-!
# Outcomes of computations that may fail

A computation in `Except` ensures a postcondition up to a set of failures when it returns a value
with the postcondition or fails in one of these ways. The rules follow the structure of the
computation.
-/

namespace Transition

/-- A computation returns a value that meets `post`, or fails with an allowed error. -/
def Ensures {ε α : Type} (allowed : ε → Prop) (post : α → Prop) : Except ε α → Prop
  | .ok value => post value
  | .error error => allowed error

namespace Ensures

variable {ε α β : Type} {allowed : ε → Prop} {post : α → Prop} {post' : β → Prop}

/-- Returning a value ensures what holds of the value. -/
theorem pure {value : α} (holds : post value) :
    Ensures allowed post (Pure.pure value : Except ε α) := holds

/-- A failure that is allowed ensures everything. -/
theorem throw {error : ε} (fault : allowed error) :
    Ensures allowed post (MonadExcept.throw error : Except ε α) := fault

/-- A sequence ensures what its second part ensures after the first. -/
theorem bind {first : Except ε α} {next : α → Except ε β} (before : Ensures allowed post first)
    (after : ∀ value, post value → Ensures allowed post' (next value)) :
    Ensures allowed post' (first >>= next) := by
  cases first with
  | ok value => exact after value before
  | error error => exact before

/-- A conditional ensures what both of its branches ensure. -/
theorem ite {condition : Prop} [Decidable condition] {yes no : Except ε α}
    (left : condition → Ensures allowed post yes) (right : ¬ condition → Ensures allowed post no) :
    Ensures allowed post (if condition then yes else no) := by
  split
  · exact left ‹_›
  · exact right ‹_›

end Ensures

/-- A computation with a value has returned it. -/
theorem eq_ok_of_toOption {ε α : Type} {result : Except ε α} {value : α}
    (returned : result.toOption = some value) : result = .ok value := by
  cases result with
  | error error => cases returned
  | ok other => exact congrArg _ (Option.some.inj returned)

/-- A sequence returns a value exactly if its second part does after the first has. -/
theorem bind_eq_ok {ε α β : Type} {first : Except ε α} {next : α → Except ε β} {result : β} :
    first >>= next = .ok result ↔ ∃ value, first = .ok value ∧ next value = .ok result := by
  cases first with
  | error error =>
    constructor
    · intro returned
      cases returned
    · rintro ⟨_, returned, _⟩
      cases returned
  | ok value =>
    constructor
    · exact fun returned => ⟨value, rfl, returned⟩
    · rintro ⟨other, same, returned⟩
      cases same
      exact returned

/-- The results of a computation for each member of a list. -/
theorem mapM_eq_ok {ε α β : Type} {f : α → Except ε β} {list : List α} {results : List β}
    (computed : list.mapM f = .ok results) :
    results.length = list.length ∧
      ∀ (i : Nat) (b : β), results[i]? = some b → ∃ a, list[i]? = some a ∧ f a = .ok b := by
  induction list generalizing results with
  | nil =>
    cases computed
    exact ⟨rfl, fun i b found => by simp at found⟩
  | cons a list ih =>
    rw [List.mapM_cons] at computed
    obtain ⟨b, first, computed⟩ := bind_eq_ok.mp computed
    obtain ⟨others, rest, computed⟩ := bind_eq_ok.mp computed
    cases computed
    obtain ⟨length, each⟩ := ih rest
    refine ⟨by rw [List.length_cons, List.length_cons, length], fun i c found => ?_⟩
    cases i with
    | zero =>
      cases found
      exact ⟨a, rfl, first⟩
    | succ i => exact each i c found

/-- The results of a computation for each number below a bound. -/
theorem mapM_range_eq_ok {ε β : Type} {f : Nat → Except ε β} {size : Nat} {results : List β}
    (computed : (List.range size).mapM f = .ok results) :
    results.length = size ∧ ∀ (i : Nat) (b : β), results[i]? = some b → f i = .ok b := by
  obtain ⟨length, each⟩ := mapM_eq_ok computed
  rw [List.length_range] at length
  refine ⟨length, fun i b found => ?_⟩
  obtain ⟨j, there, returned⟩ := each i b found
  have inside : i < size := length ▸ (List.getElem?_eq_some_iff.mp found).1
  rw [List.getElem?_range inside] at there
  cases there
  exact returned

end Transition
