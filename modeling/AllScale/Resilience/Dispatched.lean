import Mathlib.Data.List.Perm.Basic
import AllScale.Lib.Run
import AllScale.Resilience.Component

/-!
# Dispatched work items

A locality keeps the work items it has dispatched, so that they can be scheduled again when the rank
they have been dispatched to crashes. When an item completes, its continuation erases the first
entry of the rank, which need not be the entry of the item. What is scheduled again is what has not
been completed exactly as long as the items on a rank complete in the order in which they were
dispatched.
-/

namespace AllScale

open Transition

namespace Resilience

variable {W : Type}

/-! ## The items of a rank -/

/-- The items of a rank among dispatches, in the order in which they were dispatched. -/
def itemsOf (rank : Nat) (dispatches : List (Nat × W)) : List W :=
  (dispatches.filter fun entry => entry.1 = rank).map Prod.snd

/-- The items of a dispatch and of others. -/
theorem itemsOf_cons (rank : Nat) (entry : Nat × W) (dispatches : List (Nat × W)) :
    itemsOf rank (entry :: dispatches) =
      if entry.1 = rank then entry.2 :: itemsOf rank dispatches else itemsOf rank dispatches := by
  unfold itemsOf
  rw [List.filter_cons]
  by_cases same : entry.1 = rank
  · rw [if_pos (decide_eq_true same), if_pos same, List.map_cons]
  · rw [if_neg (by simpa using same), if_neg same]

/-- The items of two sequences of dispatches. -/
theorem itemsOf_append (rank : Nat) (first second : List (Nat × W)) :
    itemsOf rank (first ++ second) = itemsOf rank first ++ itemsOf rank second := by
  unfold itemsOf
  rw [List.filter_append, List.map_append]

/-- Erasing the first entry of a rank erases the first item of the rank, and no other item. -/
theorem itemsOf_eraseP (rank other : Nat) (dispatches : List (Nat × W)) :
    itemsOf other (dispatches.eraseP fun entry => entry.1 = rank) =
      if rank = other then (itemsOf other dispatches).tail else itemsOf other dispatches := by
  induction dispatches with
  | nil => simp [itemsOf]
  | cons entry dispatches ih =>
    by_cases found : entry.1 = rank
    · rw [List.eraseP_cons_of_pos (by simpa using found), itemsOf_cons]
      by_cases same : rank = other
      · rw [if_pos same, if_pos (found.trans same), List.tail_cons]
      · rw [if_neg same, if_neg fun h => same (found.symm.trans h)]
    · rw [List.eraseP_cons_of_neg (by simpa using found), itemsOf_cons, itemsOf_cons, ih]
      by_cases same : rank = other
      · rw [if_pos same, if_neg fun h => found (h.trans same.symm), if_pos same,
          if_neg fun h => found (h.trans same.symm)]
      · rw [if_neg same, if_neg same]

/-- Erasing a dispatch erases its item from its rank, and no other item. -/
theorem itemsOf_erase [DecidableEq W] (rank other : Nat) (w : W) (dispatches : List (Nat × W)) :
    itemsOf other (dispatches.erase (rank, w)) =
      if rank = other then (itemsOf other dispatches).erase w else itemsOf other dispatches := by
  induction dispatches with
  | nil => simp [itemsOf]
  | cons entry dispatches ih =>
    obtain ⟨place, item⟩ := entry
    by_cases found : (place, item) = (rank, w)
    · obtain ⟨rfl, rfl⟩ := Prod.mk.inj found
      rw [List.erase_cons_head, itemsOf_cons]
      by_cases same : place = other
      · rw [if_pos same, if_pos same, List.erase_cons_head]
      · rw [if_neg same, if_neg same]
    · rw [List.erase_cons_tail (by simpa using found), itemsOf_cons, itemsOf_cons, ih]
      by_cases same : rank = other
      · subst same
        rw [if_pos rfl, if_pos rfl]
        by_cases here : place = rank
        · subst here
          have apart : item ≠ w := fun same => found (by rw [same])
          rw [if_pos rfl, if_pos rfl, List.erase_cons_tail (by simpa using apart)]
        · rw [if_neg here, if_neg here]
      · rw [if_neg same, if_neg same]

/-- Leaving out the entries of a rank leaves the items of the others. -/
theorem itemsOf_filter_ne (rank other : Nat) (dispatches : List (Nat × W)) :
    itemsOf other (dispatches.filter fun entry => ¬ entry.1 = rank) =
      if rank = other then [] else itemsOf other dispatches := by
  induction dispatches with
  | nil => simp [itemsOf]
  | cons entry dispatches ih =>
    rw [List.filter_cons]
    by_cases found : entry.1 = rank
    · rw [if_neg (by simpa using found), ih, itemsOf_cons]
      by_cases same : rank = other
      · rw [if_pos same, if_pos same]
      · rw [if_neg same, if_neg same, if_neg fun h => same (found.symm.trans h)]
    · rw [if_pos (by simpa using found), itemsOf_cons, itemsOf_cons, ih]
      by_cases same : rank = other
      · rw [if_pos same, if_pos same, if_neg fun h => found (h.trans same.symm)]
      · rw [if_neg same, if_neg same]

/-- Taking the first element out of a list takes out a given one exactly if that is the first. -/
theorem tail_perm_erase_iff [DecidableEq W] {w : W} {items : List W} :
    items.tail.Perm (items.erase w) ↔ ∀ first ∈ items.head?, first = w := by
  cases items with
  | nil => simp
  | cons first items =>
    rw [List.head?_cons]
    constructor
    · intro same first' found
      obtain rfl := Option.some.inj found
      by_contra apart
      have counts := same.count_eq first
      rw [List.tail_cons, List.count_erase_of_ne apart, List.count_cons_self] at counts
      omega
    · intro here
      rw [here first rfl, List.erase_cons_head, List.tail_cons]

/-! ## Runs -/

/-- One locality, the continuations that wait for dispatched items to complete, and the dispatches
that have neither been completed nor been scheduled again. -/
structure Dispatching (W : Type) where
  /-- The component of the locality. -/
  component : Resilience W
  /-- The dispatches whose completion has not been observed. -/
  pending : List (Nat × W)
  /-- Those among them that have not been scheduled again after a crash either. -/
  outstanding : List (Nat × W)

/-- What happens to dispatched work items. -/
inductive Dispatched (W : Type) where
  /-- A work item is dispatched to a rank. -/
  | dispatch (w : W) (rank : Nat)
  /-- The completion of a work item dispatched to a rank is observed. -/
  | finish (w : W) (rank : Nat)
  /-- The crash of a rank is handled, when a number of localities have done so before. -/
  | crash (rank token : Nat)

/-- Were a rank to crash now, the items scheduled again would be those outstanding on it. -/
def Dispatching.Recovers (s : Dispatching W) : Prop :=
  ∀ rank token, (s.component.rescheduleDispatchedToDead rank token).items.Perm
    (itemsOf rank s.outstanding)

/-- The entries of the multimap are the outstanding dispatches, on every rank in the same order. -/
structure Dispatching.Exact (s : Dispatching W) : Prop where
  /-- Resilience is enabled. -/
  enabled : s.component.envResilienceDisabled = false
  /-- The entries of every rank. -/
  entries : ∀ rank, itemsOf rank s.component.delegatedItems = itemsOf rank s.outstanding

/-- With exact entries the outstanding items would be scheduled again. -/
theorem Dispatching.Exact.recovers {s : Dispatching W} (exact : s.Exact) : s.Recovers := by
  intro rank token
  show (itemsOf rank s.component.delegatedItems).Perm _
  rw [exact.entries rank]

variable [DecidableEq W]

/-- The steps of a locality that dispatches work items. -/
inductive Dispatching.Step : Dispatching W → Dispatched W → Dispatching W → Prop
  | dispatch {s : Dispatching W} {w : W} {rank : Nat} :
      Step s (.dispatch w rank)
        ⟨s.component.workItemDispatched w rank, s.pending ++ [(rank, w)],
          s.outstanding ++ [(rank, w)]⟩
  | finish {s : Dispatching W} {w : W} {rank : Nat} : (rank, w) ∈ s.pending →
      Step s (.finish w rank)
        ⟨s.component.workItemFinished rank, s.pending.erase (rank, w),
          s.outstanding.erase (rank, w)⟩
  | crash {s : Dispatching W} {rank token : Nat} :
      Step s (.crash rank token)
        ⟨(s.component.rescheduleDispatchedToDead rank token).self, s.pending,
          s.outstanding.filter fun entry => ¬ entry.1 = rank⟩

/-- A locality of a network in which resilience is enabled. -/
def dispatching (W : Type) [DecidableEq W] (rank numLocalities startTime : Nat) :
    System (Dispatching W) (Dispatched W) where
  start := ⟨init rank numLocalities startTime false, [], []⟩
  step := Dispatching.Step

/-- An item completes before all others that are outstanding on its rank. -/
def Dispatched.InOrder (s : Dispatching W) : Dispatched W → Prop
  | .dispatch _ _ => True
  | .finish w rank => ∀ first ∈ (itemsOf rank s.outstanding).head?, first = w
  | .crash _ _ => True

namespace Dispatching.Exact

variable {s s' : Dispatching W} {action : Dispatched W}

/-- Completions in order keep the entries exact. -/
theorem step (exact : s.Exact) (inOrder : action.InOrder s) (step : Step s action s') :
    s'.Exact := by
  cases step with
  | dispatch =>
    rw [workItemDispatched_eq exact.enabled]
    refine ⟨exact.enabled, fun other => ?_⟩
    show itemsOf other (_ ++ _) = itemsOf other (_ ++ _)
    rw [itemsOf_append, itemsOf_append, exact.entries other]
  | @finish w rank found =>
    refine ⟨exact.enabled, fun other => ?_⟩
    show itemsOf other (List.eraseP _ _) = _
    rw [itemsOf_eraseP, itemsOf_erase, exact.entries other]
    split
    · rename_i same
      subst same
      cases items : itemsOf rank s.outstanding with
      | nil => rfl
      | cons first rest =>
        have here : first = w := inOrder first (by rw [items]; rfl)
        rw [here, List.tail_cons, List.erase_cons_head]
    · rfl
  | @crash rank token =>
    refine ⟨exact.enabled, fun other => ?_⟩
    show itemsOf other (List.filter _ _) = _
    rw [itemsOf_filter_ne, itemsOf_filter_ne, exact.entries other]

/-- An item that completes out of order takes the entry of another one with it. -/
theorem inOrder_of_recovers (exact : s.Exact) (step : Step s action s') (recovers : s'.Recovers) :
    action.InOrder s := by
  cases step with
  | dispatch => trivial
  | @finish w rank found =>
    have same := recovers rank 0
    have erased : (itemsOf rank (s.component.workItemFinished rank).delegatedItems).Perm
        (itemsOf rank (s.outstanding.erase (rank, w))) := same
    unfold workItemFinished at erased
    rw [itemsOf_eraseP, itemsOf_erase, if_pos rfl, if_pos rfl, exact.entries rank] at erased
    exact tail_perm_erase_iff.mp erased
  | crash => trivial

end Dispatching.Exact

/-- In every run of a locality that dispatches work items, a crash would at any time have exactly
the outstanding items scheduled again if and only if the items outstanding on a rank complete in the
order in which they were dispatched. -/
theorem recovers_run_iff {rank numLocalities startTime : Nat} (several : 2 ≤ numLocalities)
    {history : List (Dispatching W × Dispatched W)} {s : Dispatching W}
    (run : (dispatching W rank numLocalities startTime).Run history s) :
    System.Always Dispatching.Recovers history s ↔
      System.Meets (fun s action => action.InOrder s) history := by
  refine run.always_iff_meets (I := Dispatching.Exact) ⟨?_, fun _ => rfl⟩
    (fun _ => Dispatching.Exact.recovers) (fun exact inOrder step => exact.step inOrder step)
    (fun exact step recovers => exact.inOrder_of_recovers step recovers)
  show (false || decide (numLocalities < 2)) = false
  rw [Bool.false_or, decide_eq_false_iff_not]
  omega

/-- Two items are dispatched to a rank and complete in that order. -/
theorem recovers_run_two :
    ∃ (history : List (Dispatching Nat × Dispatched Nat)) (s : Dispatching Nat),
      (dispatching Nat 0 4 0).Run history s ∧ history.length = 4 ∧
        System.Always Dispatching.Recovers history s := by
  have first := (System.Run.start (S := dispatching Nat 0 4 0)).step
    (@Dispatching.Step.dispatch Nat _ _ 7 1)
  have second := first.step (@Dispatching.Step.dispatch Nat _ _ 8 1)
  have third := second.step (@Dispatching.Step.finish Nat _ _ 7 1 (by decide))
  have fourth := third.step (@Dispatching.Step.finish Nat _ _ 8 1 (by decide))
  refine ⟨_, _, fourth, rfl, (recovers_run_iff (by decide) fourth).mpr ?_⟩
  simp only [System.Meets, List.forall_mem_cons]
  refine ⟨?_, ?_, trivial, trivial, by simp⟩ <;> unfold Dispatched.InOrder <;> decide

/-- Two items are dispatched to a rank and the second completes first, so the completed one would be
scheduled again. -/
theorem not_recovers :
    ¬ ∀ (history : List (Dispatching Nat × Dispatched Nat)) (s : Dispatching Nat),
    (dispatching Nat 0 4 0).Run history s → s.Recovers := by
  intro claim
  have first := (System.Run.start (S := dispatching Nat 0 4 0)).step
    (@Dispatching.Step.dispatch Nat _ _ 7 1)
  have second := first.step (@Dispatching.Step.dispatch Nat _ _ 8 1)
  have third := second.step (@Dispatching.Step.finish Nat _ _ 8 1 (by decide))
  have same := claim _ _ third 1 0
  exact absurd same (by decide)

end Resilience

end AllScale
