import Mathlib.Tactic.Common

/-!
# Computations with fuel

A recursion without a measure of its own is computed with fuel, and has no result when the fuel runs
out. It settles on a result when all amounts of fuel from some bound on give this result. A sequence
settles when its parts do, and so does a loop over a list.
-/

namespace Fuel

variable {α β : Type}

/-- All amounts of fuel from some bound on give the result. -/
def Settles (f : Nat → Option α) (a : α) : Prop := ∃ bound, ∀ fuel, bound ≤ fuel → f fuel = some a

/-- A value without a computation. -/
theorem Settles.pure (a : α) : Settles (fun _ => some a) a := ⟨0, fun _ _ => rfl⟩

/-- A sequence settles on what its second part settles on after the first. -/
theorem Settles.bind {f : Nat → Option α} {g : Nat → α → Option β} {a : α} {b : β}
    (first : Settles f a) (second : Settles (g · a) b) :
    Settles (fun fuel => f fuel >>= g fuel) b := by
  obtain ⟨bound, enough⟩ := first
  obtain ⟨bound', enough'⟩ := second
  refine ⟨max bound bound', fun fuel more => ?_⟩
  have left := enough fuel (Nat.le_trans (Nat.le_max_left _ _) more)
  have right := enough' fuel (Nat.le_trans (Nat.le_max_right _ _) more)
  show f fuel >>= g fuel = some b
  rw [left]
  exact right

/-- A recursion settles when its body does with one unit of fuel less. -/
theorem Settles.of_succ {f : Nat → Option α} {a : α} (body : Settles (fun fuel => f (fuel + 1)) a) :
    Settles f a := by
  obtain ⟨bound, enough⟩ := body
  refine ⟨bound + 1, fun fuel more => ?_⟩
  obtain ⟨fuel, rfl⟩ : ∃ rest, fuel = rest + 1 := ⟨fuel - 1, by omega⟩
  exact enough fuel (Nat.le_of_succ_le_succ more)

/-- A loop that collects lists settles when its rounds do, and collects what they collect. -/
theorem exists_settles_mapM {f : Nat → α → Option (List β)} {collects : α → β → Prop}
    {list : List α} (rounds : ∀ a ∈ list, ∃ bs, (∀ b, b ∈ bs ↔ collects a b) ∧
      Settles (f · a) bs) :
    ∃ bs, (∀ b, b ∈ bs.flatten ↔ ∃ a ∈ list, collects a b) ∧
      Settles (fun fuel => list.mapM (f fuel)) bs := by
  induction list with
  | nil => exact ⟨[], by simp, ⟨0, fun _ _ => rfl⟩⟩
  | cons a list ih =>
    obtain ⟨first, here, settles⟩ := rounds a List.mem_cons_self
    obtain ⟨rest, there, settles'⟩ := ih fun other found =>
      rounds other (List.mem_cons_of_mem _ found)
    refine ⟨first :: rest, fun b => ?_, ?_⟩
    · rw [List.flatten_cons, List.mem_append, here, there]
      simp
    · simp only [List.mapM_cons]
      exact settles.bind (settles'.bind (Settles.pure _))

end Fuel
