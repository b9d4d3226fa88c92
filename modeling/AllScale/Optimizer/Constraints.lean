import Mathlib.Tactic.Linarith
import AllScale.Optimizer.NelderMead

/-!
# The constraints of the simplex search

The local optimizer passes the margins of both parameters in arrays of two entries, and
`initialize_simplex` copies them in the loop over the three vertices. The last round reads and
writes behind the arrays. The margins themselves are the number of frequencies and not the last
index, so that apart from the arrays a proposed point may name a frequency behind the list.
-/

namespace AllScale

open Transition

namespace NelderMead

open Double

section Arrays

variable {F : Type} [Double F]

/-- Reading an entry of an array of two entries; there is no result outside of it. -/
def read (array : Point F) (i : Nat) : Option F :=
  if inside : i < 2 then some (array ⟨i, inside⟩) else none

/-- Writing an entry of an array of two entries; there is no result outside of it. -/
def write (array : Point F) (i : Nat) (value : F) : Option (Point F) :=
  if inside : i < 2 then some (Function.update array ⟨i, inside⟩ value) else none

/-- A round of the loop over the vertices in `initialize_simplex`, with the accesses to the
margins. -/
def initializeVertex (params : Fin 3 → Point F) (values : Fin 3 → F)
    (constraintMin constraintMax : Point F) (self : NelderMead F) (i : Fin 3) :
    Option (NelderMead F) := do
  let self := self.replace i (params i) (values i)
  let low ← read constraintMin i
  let lows ← write self.constraintMin i low
  let high ← read constraintMax i
  let highs ← write self.constraintMax i high
  return { self with constraintMin := lows, constraintMax := highs }

/-- `initialize_simplex`, with the accesses to the margins. -/
def initializeSimplexChecked (self : NelderMead F) (params : Fin 3 → Point F)
    (values : Fin 3 → F) (constraintMin constraintMax : Point F) : Option (NelderMead F) := do
  let self ← (List.finRange 3).foldlM
    (initializeVertex params values constraintMin constraintMax) self
  return { self with itr := 0 }

/-- `constraint_min` in the local optimizer. -/
def localMin : Point F := ![literal 1, literal 0]

/-- `constraint_max` in the local optimizer. -/
def localMax (maxThreads : Nat) (frequencies : List Nat) : Point F :=
  ![literal maxThreads, literal frequencies.length]

/-- A simplex that the local optimizer has initialised, and the calls of `step`. The accesses behind
the arrays are left out. -/
def optimizing (self : NelderMead F) (params : Fin 3 → Point F) (values : Fin 3 → F)
    (maxThreads : Nat) (frequencies : List Nat) : System (NelderMead F) F where
  start := self.initializeSimplex params values localMin (localMax maxThreads frequencies)
  step nmd param nmd' := nmd' = (nmd.step param).2

/-- The constraints are copied inside of the arrays, and all points that are proposed are within
them. -/
structure Confined (nmd : NelderMead F) (params : Fin 3 → Point F) (values : Fin 3 → F)
    (maxThreads : Nat) (frequencies : List Nat) : Prop where
  /-- The arrays. -/
  arrays : nmd.initializeSimplexChecked params values localMin (localMax maxThreads frequencies) ≠
    none
  /-- The points. -/
  proposed : ∀ {history nmd'},
    (optimizing nmd params values maxThreads frequencies).Run history nmd' →
      ∀ {param x}, (nmd'.step param).2.pending = some x → Within maxThreads frequencies x

omit [Double F] in
/-- The last vertex has no margins. -/
theorem initializeVertex_two (params : Fin 3 → Point F) (values : Fin 3 → F)
    (constraintMin constraintMax : Point F) (self : NelderMead F) :
    initializeVertex params values constraintMin constraintMax self 2 = none := rfl

omit [Double F] in
/-- The loop over the vertices always goes behind the arrays. -/
theorem initializeSimplexChecked_eq_none (self : NelderMead F) (params : Fin 3 → Point F)
    (values : Fin 3 → F) (constraintMin constraintMax : Point F) :
    self.initializeSimplexChecked params values constraintMin constraintMax = none := by
  have vertices : List.finRange 3 = [0, 1, 2] := rfl
  have loop : (List.finRange 3).foldlM
      (initializeVertex params values constraintMin constraintMax) self = none := by
    rw [vertices, List.foldlM_cons]
    cases initializeVertex params values constraintMin constraintMax self 0 with
    | none => rfl
    | some first =>
      rw [Option.bind_eq_bind, Option.bind_some, List.foldlM_cons]
      cases initializeVertex params values constraintMin constraintMax first 1 with
      | none => rfl
      | some second =>
        rw [Option.bind_eq_bind, Option.bind_some, List.foldlM_cons, initializeVertex_two]
        rfl
  unfold initializeSimplexChecked
  rw [loop]
  rfl

/-- For no object and no simplex, no maximum number of threads and no list of frequencies the
constraints are copied inside of the arrays. -/
theorem not_confined (nmd : NelderMead F) (params : Fin 3 → Point F) (values : Fin 3 → F)
    (maxThreads : Nat) (frequencies : List Nat) :
    ¬ nmd.Confined params values maxThreads frequencies :=
  fun confined => confined.arrays (nmd.initializeSimplexChecked_eq_none _ _ _ _)

/-! ## Proposed points -/

/-- A step leaves the margins unchanged. -/
theorem step_constraints (self : NelderMead F) (param : F) :
    (self.step param).2.constraintMin = self.constraintMin ∧
      (self.step param).2.constraintMax = self.constraintMax := by
  have tested (nmd : NelderMead F) : nmd.testConvergence.2.constraintMin = nmd.constraintMin ∧
      nmd.testConvergence.2.constraintMax = nmd.constraintMax := by
    simp only [testConvergence]
    split <;> exact ⟨rfl, rfl⟩
  have advanced : (self.advance param).constraintMin = self.constraintMin ∧
      (self.advance param).constraintMax = self.constraintMax := by
    unfold advance
    cases self.state with
    | start => exact ⟨rfl, rfl⟩
    | reflection =>
      simp only [stepReflection]
      split_ifs <;> exact ⟨rfl, rfl⟩
    | expansion =>
      simp only [stepExpansion]
      split_ifs <;> exact ⟨rfl, rfl⟩
    | contraction =>
      simp only [stepContraction]
      split_ifs <;> exact ⟨rfl, rfl⟩
  rw [step_snd]
  obtain ⟨low, high⟩ := tested (self.advance param)
  exact ⟨low.trans advanced.1, high.trans advanced.2⟩

/-- A step moves the point that it proposes into the constraints. -/
theorem step_pending {self : NelderMead F} {param : F} {x : Point F}
    (proposed : (self.step param).2.pending = some x) : ∃ y, x = self.myConstraints y := by
  have tested (nmd : NelderMead F) : nmd.testConvergence.2.pending = nmd.pending := by
    simp only [testConvergence]
    split <;> rfl
  rw [step_snd, tested] at proposed
  unfold advance at proposed
  cases state : self.state with
  | start =>
    rw [state] at proposed
    cases proposed
    exact ⟨_, rfl⟩
  | reflection =>
    simp only [state, stepReflection] at proposed
    split_ifs at proposed
    · cases proposed
    · cases proposed
      exact ⟨_, rfl⟩
    · cases proposed
      exact ⟨_, rfl⟩
    · cases proposed
      exact ⟨_, rfl⟩
  | expansion =>
    simp only [state, stepExpansion] at proposed
    cases proposed
  | contraction =>
    simp only [state, stepContraction] at proposed
    cases proposed

end Arrays

section Exact

/-- A coordinate is moved onto an integer between the margins. -/
theorem constrain_mem (low high : Int) (nonneg : 0 ≤ low) (ordered : low ≤ high) (x : Exact) :
    ∃ k : Int, low ≤ k ∧ k ≤ high ∧
      constrain (literal low) (literal high) x = (literal k : Exact) := by
  have between : ∃ y : ℚ, (low : ℚ) ≤ y ∧ y ≤ (high : ℚ) ∧
      constrain (literal low) (literal high) x = Double.round (F := Exact) y := by
    have margins : (low : ℚ) ≤ (high : ℚ) := by exact_mod_cast ordered
    unfold constrain
    split
    · refine ⟨((low : ℚ) + (high : ℚ)) / 2, ?_, ?_, rfl⟩
      · linarith
      · linarith
    · rename_i inside
      obtain ⟨aboveLow, belowHigh⟩ := not_or.mp inside
      exact ⟨x, Rat.not_lt.mp aboveLow, Rat.not_lt.mp belowHigh, rfl⟩
  obtain ⟨y, aboveLow, belowHigh, moved⟩ := between
  have positive : (0 : ℚ) ≤ y := by
    have zero : (0 : ℚ) ≤ (low : ℚ) := by exact_mod_cast nonneg
    exact le_trans zero aboveLow
  refine ⟨⌊y + 1 / 2⌋, ?_, ?_, ?_⟩
  · rw [Int.le_floor]
    linarith
  · have less : ⌊y + 1 / 2⌋ < high + 1 := by
      rw [Int.floor_lt]
      push_cast
      linarith
    omega
  · rw [moved]
    show (((if 0 ≤ y then ⌊y + 1 / 2⌋ else ⌈y - 1 / 2⌉ : Int) : ℚ) : Exact) = _
    rw [if_pos positive]
    rfl

variable {nmd nmd' : NelderMead Exact} {params : Fin 3 → Point Exact} {values : Fin 3 → Exact}
  {maxThreads : Nat} {frequencies : List Nat} {history : List (NelderMead Exact × Exact)}

/-- Apart from the arrays, every point that is proposed in a run is within the margins: its number
of threads is one to the maximum, and its index is at most the number of frequencies. -/
theorem proposed_run (threads : 0 < maxThreads)
    (run : (optimizing nmd params values maxThreads frequencies).Run history nmd')
    {param : Exact} {x : Point Exact} (proposed : (nmd'.step param).2.pending = some x) :
    ∃ k freqIdx : Int, x 0 = literal k ∧ 1 ≤ k ∧ k ≤ maxThreads ∧
      x 1 = literal freqIdx ∧ 0 ≤ freqIdx ∧ freqIdx ≤ frequencies.length := by
  have margins : nmd'.constraintMin = localMin ∧
      nmd'.constraintMax = localMax maxThreads frequencies := by
    apply run.invariant (P := fun nmd => nmd.constraintMin = localMin ∧
      nmd.constraintMax = localMax maxThreads frequencies) ⟨rfl, rfl⟩
    rintro nmd param nmd' ⟨low, high⟩ rfl
    obtain ⟨low', high'⟩ := nmd.step_constraints param
    exact ⟨low'.trans low, high'.trans high⟩
  obtain ⟨y, rfl⟩ := step_pending proposed
  obtain ⟨k, first, last, moved⟩ :=
    constrain_mem 1 maxThreads (by decide) (by omega) (y 0)
  obtain ⟨freqIdx, first', last', moved'⟩ :=
    constrain_mem 0 frequencies.length (by decide) (by omega) (y 1)
  refine ⟨k, freqIdx, ?_, first, last, ?_, first', last'⟩
  · rw [← moved]
    unfold myConstraints
    rw [margins.1, margins.2]
    rfl
  · rw [← moved']
    unfold myConstraints
    rw [margins.1, margins.2]
    rfl

/-- Five frequencies, three vertices of which the worst has the index three and the others the last
index: the reflection point has the index five. -/
theorem not_confined_eight :
    initializeSimplexChecked zeroed ![vertex 2 4, vertex 3 4, vertex 4 3]
      ![literal 1, literal 2, literal 3] localMin (localMax 8 [5, 4, 3, 2, 1]) = none ∧
    (((optimizing zeroed ![vertex 2 4, vertex 3 4, vertex 4 3]
      ![literal 1, literal 2, literal 3] 8 [5, 4, 3, 2, 1]).start.step (literal 0)).2.pending.map
        fun x => toInt (x 1)) = some 5 ∧
    ¬ Confined zeroed ![vertex 2 4, vertex 3 4, vertex 4 3]
      ![literal 1, literal 2, literal 3] 8 [5, 4, 3, 2, 1] := by
  refine ⟨initializeSimplexChecked_eq_none _ _ _ _ _, by decide +kernel, fun confined => ?_⟩
  exact confined.arrays (initializeSimplexChecked_eq_none _ _ _ _ _)

end Exact

end NelderMead

end AllScale
