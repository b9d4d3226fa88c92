import Mathlib.Data.Nat.ModEq
import Mathlib.GroupTheory.Perm.Cycle.Basic

/-!
# Walks on a cycle

A permutation that is a cycle on a finite set visits every element of it once. A walk that starts at
an element and takes one step less than there are elements visits all but the one before its start.
-/

namespace CycleWalk

open Equiv

variable {α : Type} {next : Perm α} {s : Finset α} {a : α} {n : Nat}

/-- The first elements that are reached from an element, which is the first one. -/
def walk (next : Perm α) (a : α) (n : Nat) : List α := (List.range n).map fun k => (next ^ k) a

/-- A walk has as many elements as it should. -/
@[simp]
theorem length_walk : (walk next a n).length = n := by
  unfold walk
  rw [List.length_map, List.length_range]

/-- What is visited after some steps. -/
theorem mem_walk {x : α} : x ∈ walk next a n ↔ ∃ k < n, (next ^ k) a = x := by
  unfold walk
  simp only [List.mem_map, List.mem_range]

/-- A step further is the next element. -/
theorem pow_succ_apply (k : Nat) : (next ^ (k + 1)) a = next ((next ^ k) a) := by
  rw [pow_succ', Perm.mul_apply]

/-- A walk that starts at an element goes on from the next one. -/
theorem walk_succ : walk next a (n + 1) = a :: walk next (next a) n := by
  unfold walk
  rw [List.range_succ_eq_map, List.map_cons, List.map_map]
  refine congrArg (a :: ·) (List.map_congr_left fun k _ => ?_)
  show (next ^ (k + 1)) a = (next ^ k) (next a)
  rw [pow_succ, Perm.mul_apply]

/-- A walk that is not longer than the cycle visits no element twice. -/
theorem nodup_walk (cycle : next.IsCycleOn s) (start : a ∈ s) (short : n ≤ s.card) :
    (walk next a n).Nodup := by
  refine List.Nodup.map_on (fun k first k' second same => ?_) List.nodup_range
  rw [List.mem_range] at first second
  have congruent := (cycle.pow_apply_eq_pow_apply start).mp same
  exact congruent.eq_of_lt_of_lt (first.trans_le short) (second.trans_le short)

/-- A walk does not leave the cycle. -/
theorem walk_inside (cycle : next.IsCycleOn s) (start : a ∈ s) {x : α}
    (found : x ∈ walk next a n) : x ∈ s := by
  obtain ⟨k, -, rfl⟩ := mem_walk.mp found
  exact Finset.mem_coe.mp (cycle.1.mapsTo.perm_pow k start)

/-- A walk with one step less than the cycle visits all but the element before its start. -/
theorem toFinset_walk [DecidableEq α] (cycle : next.IsCycleOn s) (start : a ∈ s) :
    (walk next a (s.card - 1)).toFinset = s.erase (next.symm a) := by
  have positive : 0 < s.card := Finset.card_pos.mpr ⟨a, start⟩
  have before (k : Nat) : (next ^ k) a = next.symm a ↔ s.card ∣ k + 1 := by
    rw [Equiv.eq_symm_apply, ← pow_succ_apply, cycle.pow_apply_eq start]
  ext x
  rw [List.mem_toFinset, Finset.mem_erase]
  constructor
  · intro found
    refine ⟨?_, walk_inside cycle start found⟩
    obtain ⟨k, short, rfl⟩ := mem_walk.mp found
    intro same
    have long := Nat.le_of_dvd (Nat.succ_pos k) ((before k).mp same)
    omega
  · rintro ⟨other, inside⟩
    obtain ⟨k, short, rfl⟩ := cycle.exists_pow_eq start inside
    refine mem_walk.mpr ⟨k, ?_, rfl⟩
    by_contra long
    have last : k + 1 = s.card := by omega
    exact other ((before k).mpr (last ▸ dvd_rfl))

/-- A walk is a chain of a relation that holds between its elements and the next ones. -/
theorem isChain_walk {r : α → α → Prop}
    (holds : ∀ x ∈ walk next a n, next x ∈ walk next a n → r x (next x)) :
    (walk next a n).IsChain r := by
  induction n generalizing a with
  | zero => exact .nil
  | succ n ih =>
    rw [walk_succ] at holds ⊢
    have later := @ih (next a) fun x found found' =>
      holds x (List.mem_cons_of_mem _ found) (List.mem_cons_of_mem _ found')
    cases n with
    | zero => exact .singleton a
    | succ n =>
      rw [walk_succ] at holds later ⊢
      refine .cons_cons (holds a List.mem_cons_self ?_) later
      exact List.mem_cons_of_mem _ List.mem_cons_self

end CycleWalk
