import AllScale.Lib.Scan
import AllScale.Optimizer.NelderMead

/-!
# The second worst vertex

An iteration of the simplex search compares the reflection point with the second worst vertex. The
scan that finds its index goes on from the index of the last time, which is not reset and at first
not even initialised. When that index is the worst vertex now, it stays there: no value is greater.
This is what happens whenever the worst vertex has been replaced by a point that is better than the
second worst.
-/

namespace AllScale

open Transition

namespace NelderMead

open Double

variable {F : Type} [Double F]

/-- The index of the second worst vertex is the one of another vertex than the worst, with a value
that no vertex but the worst exceeds. -/
def SecondWorst (self : NelderMead F) : Prop := Scan.IsSecond (· < ·) self.f self.vg self.vh

/-- Before the indices are found: the last index is not the one of the worst vertex, and has its
value if another vertex does. -/
def LeadsToSecond (self : NelderMead F) : Prop :=
  Scan.Leads (· < ·) self.f self.vgIndex self.vh

/-- The simplex in which a step finds the indices, if it does so: before the reflection, and at the
end of an iteration. -/
def searched (self : NelderMead F) (param : F) : Option (NelderMead F) :=
  match self.state with
  | .start => some self
  | .reflection =>
    if param < self.f self.vh ∧ self.f self.vs ≤ param then
      some (self.replace self.vg self.vr param)
    else none
  | .expansion =>
    if param < self.f self.vs then some (self.replace self.vg self.ve param)
    else some (self.replace self.vg self.vr self.fr)
  | .contraction =>
    if param < self.f self.vg then some (self.replace self.vg self.vc param) else some self

/-- After a step that has found the indices, or as long as there was no step. -/
def Ranked (self : NelderMead F) : Prop := self.itr ≠ 0 → self.SecondWorst

/-- Iterations are counted when they start. -/
structure Counted (nmd : NelderMead F) : Prop where
  /-- The number of iterations. -/
  nonneg : 0 ≤ nmd.itr
  /-- The first step starts the first iteration. -/
  first : nmd.itr = 0 → nmd.state = .start

/-- `vg_index` returns the index of a greatest value. -/
theorem not_vgIndex_lt [IsStrictWeakOrder F (· < ·)] (self : NelderMead F) (i : Fin 3) :
    ¬ self.f self.vgIndex < self.f i :=
  (Scan.not_greatest_rel (r := (· < ·)) (f := self.f) 0).2 i (List.mem_finRange i)

/-- When the indices are found, the second worst vertex is exactly if the last index leads to it. -/
theorem secondWorst_findIndices_iff [IsStrictWeakOrder F (· < ·)] (self : NelderMead F) :
    self.findIndices.SecondWorst ↔ self.LeadsToSecond :=
  Scan.isSecond_greatestBelow_iff (r := (· < ·)) List.mem_finRange self.not_vgIndex_lt self.vh

/-- The worst vertex is replaced: this does not change which of the others is the worst. -/
theorem secondWorst_replace {self : NelderMead F} (second : self.SecondWorst) (x : Point F)
    (value : F) : (self.replace self.vg x value).SecondWorst := by
  obtain ⟨other, greatest⟩ := second
  refine ⟨other, fun i different => ?_⟩
  have different : i ≠ self.vg := different
  show ¬ Function.update self.f self.vg value self.vh < Function.update self.f self.vg value i
  rw [Function.update_of_ne other, Function.update_of_ne different]
  exact greatest i different

/-- A step finds the second worst vertex exactly if the last index leads to it, and a step that does
not find indices leaves the second worst vertex. -/
theorem secondWorst_advance_iff [IsStrictWeakOrder F (· < ·)] {self : NelderMead F} (param : F)
    (second : self.state ≠ .start → self.SecondWorst) :
    (self.advance param).SecondWorst ↔
      ∀ simplex, self.searched param = some simplex → simplex.LeadsToSecond := by
  have found (simplex : NelderMead F) :
      simplex.updateObjectives.SecondWorst ↔ simplex.LeadsToSecond :=
    simplex.secondWorst_findIndices_iff
  unfold advance searched
  cases state : self.state with
  | start =>
    simp only [Option.some.injEq, forall_eq']
    exact secondWorst_findIndices_iff { self with itr := self.itr + 1 }
  | reflection =>
    have before : self.SecondWorst := second (by rw [state]; decide)
    simp only [stepReflection]
    by_cases better : param < self.f self.vh
    · by_cases best : self.f self.vs ≤ param
      · rw [if_pos better, if_pos best, if_pos ⟨better, best⟩]
        simp only [Option.some.injEq, forall_eq']
        exact found (self.replace self.vg self.vr param)
      · have notBoth : ¬ (param < self.f self.vh ∧ self.f self.vs ≤ param) :=
          fun both => best both.2
        rw [if_pos better, if_neg best, if_neg notBoth]
        exact iff_of_true before fun _ same => absurd same (Option.some_ne_none _).symm
    · have notBoth : ¬ (param < self.f self.vh ∧ self.f self.vs ≤ param) :=
        fun both => better both.1
      rw [if_neg better, if_neg notBoth]
      refine iff_of_true ?_ fun _ same => absurd same (Option.some_ne_none _).symm
      split
      · exact secondWorst_replace before self.vr param
      · exact before
  | expansion =>
    simp only [stepExpansion]
    split_ifs
    · simp only [Option.some.injEq, forall_eq']
      exact found (self.replace self.vg self.ve param)
    · simp only [Option.some.injEq, forall_eq']
      exact found (self.replace self.vg self.vr self.fr)
  | contraction =>
    simp only [stepContraction]
    split_ifs
    · simp only [Option.some.injEq, forall_eq']
      exact found (self.replace self.vg self.vc param)
    · simp only [Option.some.injEq, forall_eq']
      exact found self

/-- Iterations are not counted within an iteration. -/
theorem itr_advance {self : NelderMead F} (started : self.state ≠ .start) (param : F) :
    (self.advance param).itr = self.itr := by
  unfold advance
  split
  · rename_i start
    exact absurd start started
  · simp only [stepReflection]
    split_ifs <;> rfl
  · simp only [stepExpansion]
    split_ifs <;> rfl
  · simp only [stepContraction]
    split_ifs <;> rfl

/-- The first step starts an iteration, and the others count on from there. -/
theorem counted_advance {self : NelderMead F} (counted : self.Counted) (param : F) :
    (self.advance param).Counted ∧ (self.advance param).itr ≠ 0 := by
  have nonneg := counted.nonneg
  have next : (self.advance param).itr = self.itr + 1 ∨
      (self.advance param).itr = self.itr ∧ self.itr ≠ 0 := by
    by_cases start : self.state = .start
    · unfold advance
      rw [start]
      exact Or.inl rfl
    · exact Or.inr ⟨itr_advance start param, fun zero => start (counted.first zero)⟩
  have counts : 0 ≤ (self.advance param).itr := by omega
  have positive : (self.advance param).itr ≠ 0 := by omega
  exact ⟨⟨counts, fun zero => absurd zero positive⟩, positive⟩

/-- The test for convergence changes neither the values nor the two worst vertices. -/
theorem testConvergence_keeps (self : NelderMead F) :
    self.testConvergence.2.f = self.f ∧ self.testConvergence.2.vg = self.vg ∧
      self.testConvergence.2.vh = self.vh ∧ self.testConvergence.2.itr = self.itr ∧
      self.testConvergence.2.state = self.state := by
  simp only [testConvergence]
  split <;> exact ⟨rfl, rfl, rfl, rfl, rfl⟩

/-- The indices that a step finds are found from an index that leads to the second worst vertex. -/
def Leads (self : NelderMead F) (param : F) : Prop :=
  ∀ simplex, self.searched param = some simplex → simplex.LeadsToSecond

variable {memory : NelderMead F} {eps : F} {params : Fin 3 → Point F} {values : Fin 3 → F}
  {constraintMin constraintMax : Point F}

/-- In every run, from every simplex and with all samples, the second worst vertex is found by all
steps exactly if they all find the indices from an index that leads to it. -/
theorem ranked_run_iff [IsStrictWeakOrder F (· < ·)] {history : List (Search F × F)} {t : Search F}
    (run : (search memory eps params values constraintMin constraintMax).Run history t) :
    System.Always (fun t => t.nmd.Ranked) history t ↔
      System.Meets (fun t param => t.nmd.Leads param) history := by
  apply run.always_iff (J := fun t => t.nmd.Counted) ⟨Int.le_refl 0, fun _ => rfl⟩
  · rintro t param t' counted rfl
    obtain ⟨-, -, -, itr, state⟩ := (t.nmd.advance param).testConvergence_keeps
    obtain ⟨after, -⟩ := counted_advance counted param
    simp only [Search.next, step_snd]
    exact ⟨itr ▸ after.nonneg, fun zero => state.trans (after.first (itr.symm.trans zero))⟩
  · exact fun started => absurd rfl started
  · rintro t param t' counted ranked rfl
    obtain ⟨f, vg, vh, itr, -⟩ := (t.nmd.advance param).testConvergence_keeps
    obtain ⟨-, started⟩ := counted_advance counted param
    have second : t.nmd.state ≠ .start → t.nmd.SecondWorst :=
      fun state => ranked fun zero => state (counted.first zero)
    have kept : (t.nmd.advance param).testConvergence.2.Ranked ↔
        (t.nmd.advance param).SecondWorst := by
      unfold Ranked SecondWorst
      rw [f, vg, vh, itr]
      exact ⟨fun ranked => ranked started, fun second _ => second⟩
    simp only [Search.next, step_snd]
    exact kept.trans (secondWorst_advance_iff param second)

/-- The values are ordered as numbers are. -/
instance strictWeakOrderExact : IsStrictWeakOrder Exact (· < ·) where
  irrefl := fun x : ℚ => lt_irrefl x
  trans := fun x y z : ℚ => lt_trans (a := x) (b := y) (c := z)
  incomp_trans := fun x y z : ℚ => fun first second => by
    have same : x = y := le_antisymm (not_lt.mp first.2) (not_lt.mp first.1)
    rw [same]
    exact second

instance decidableSecondWorst (self : NelderMead Exact) : Decidable self.SecondWorst :=
  inferInstanceAs (Decidable (_ ∧ ∀ i, i ≠ self.vg → ¬ self.f self.vh < self.f i))

/-- The reflection point is not better than the worst vertex, and the contraction point is worse
than the second worst. -/
theorem ranked_run_three : ∃ (history : List (Search Exact × Exact)) (t : Search Exact),
    threeSamples.Run history t ∧ history.length = 3 ∧ t.nmd.vg = 2 ∧ t.nmd.vh = 1 ∧
      (System.Always (fun t => t.nmd.Ranked) history t ↔
        System.Meets (fun t param => t.nmd.Leads param) history) := by
  let first := threeSamples.start.next (literal 0)
  let second := first.next (literal 4)
  let third := second.next (literal (5 / 2))
  have run : threeSamples.Run
      [(second, literal (5 / 2)), (first, literal 4), (threeSamples.start, literal 0)] third :=
    ((System.Run.start.step rfl).step rfl).step rfl
  exact ⟨_, _, run, rfl, by decide +kernel, by decide +kernel, ranked_run_iff run⟩

/-- The memory of the optimizer holds zero. The reflection point replaces the worst vertex, the
second worst vertex becomes the worst, and the scan for the second worst stays there. -/
theorem not_ranked : ∃ (history : List (Search Exact × Exact)) (t : Search Exact),
    threeSamples.Run history t ∧ history.map Prod.snd = [literal (3 / 2), literal 0] ∧
      t.nmd.itr ≠ 0 ∧ t.nmd.vg = 1 ∧ t.nmd.vh = 1 ∧ ¬ t.nmd.SecondWorst := by
  let first := threeSamples.start.next (literal 0)
  let second := first.next (literal (3 / 2))
  have run : threeSamples.Run [(first, literal (3 / 2)), (threeSamples.start, literal 0)] second :=
    (System.Run.start.step rfl).step rfl
  exact ⟨_, _, run, rfl, by decide +kernel, by decide +kernel, by decide +kernel,
    by decide +kernel⟩

end NelderMead

end AllScale
