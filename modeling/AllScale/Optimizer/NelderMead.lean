import Mathlib.Data.Rat.Floor
import Mathlib.Data.Rat.Sqrt
import Mathlib.Data.Fin.VecNotation
import Mathlib.Data.Fintype.Pi
import Mathlib.Logic.Function.Basic
import Mathlib.Tactic.NormNum
import AllScale.Lib.Run

/-!
# The simplex search

The local optimizer minimises an objective over a number of threads and a frequency with the method
of Nelder and Mead. The objective cannot be evaluated: it is measured while the program runs with
the parameters that the optimizer has proposed. A call of `step` therefore gets the value of the
point that the last call has proposed, goes on to the next point that it needs, and proposes it.
A point is moved into the constraints and onto integers whenever it is proposed, and a vertex of the
simplex also after it is replaced and in a shrink.
-/

namespace AllScale

open Transition

/-- The operations on `double` of the search. -/
class Double (F : Type) extends Add F, Sub F, Mul F, Div F, LT F, LE F where
  /-- The value of a literal. -/
  literal : ℚ → F
  /-- `round`. -/
  round : F → F
  /-- `sqrt`. -/
  sqrt : F → F
  /-- `pow`. -/
  pow : F → F → F
  /-- The conversion to `int`. -/
  toInt : F → Int
  /-- `<` is computed. -/
  decideLT : DecidableLT F
  /-- `<=` is computed. -/
  decideLE : DecidableLE F

namespace NelderMead

open Double

section Model

variable {F : Type} [Double F]

instance decidableLT : DecidableLT F := decideLT

instance decidableLE : DecidableLE F := decideLE

/-- `ALPHA`. -/
def alpha : F := literal 1

/-- `BETA`. -/
def beta : F := literal (1 / 2)

/-- `GAMMA`. -/
def gamma : F := literal 2

/-- `MAXITERATIONS`. -/
def maxIterations : Int := 15

/-- The coordinates of a vertex: a number of threads and the index of a frequency. -/
abbrev Point (F : Type) := Fin 2 → F

/-- `iterationstates`. -/
inductive IterationState where
  | start
  | reflection
  | expansion
  | contraction
  deriving DecidableEq

/-- `optstepresult`. -/
structure OptStepResult (F : Type) where
  /-- `converged`. -/
  converged : Bool
  /-- `threads`. -/
  threads : F
  /-- `freq_idx`. -/
  freqIdx : Int

end Model

end NelderMead

/-- `NelderMead`, for a type of numbers. The temporaries of `testConvergence` are left out. -/
structure NelderMead (F : Type) where
  /-- `vs`, the vertex with the smallest value. -/
  vs : Fin 3
  /-- `vh`, the vertex with the second largest value. -/
  vh : Fin 3
  /-- `vg`, the vertex with the largest value. -/
  vg : Fin 3
  /-- `itr`. -/
  itr : Int
  /-- `v`, the vertices of the simplex. -/
  v : Fin 3 → NelderMead.Point F
  /-- `f`, the value at each vertex. -/
  f : Fin 3 → F
  /-- `fr`, the value at the reflection point. -/
  fr : F
  /-- `fe`, the value at the expansion point. -/
  fe : F
  /-- `fc`, the value at the contraction point. -/
  fc : F
  /-- `vr`, the reflection point. -/
  vr : NelderMead.Point F
  /-- `ve`, the expansion point. -/
  ve : NelderMead.Point F
  /-- `vc`, the contraction point. -/
  vc : NelderMead.Point F
  /-- `vm`, the centroid. -/
  vm : NelderMead.Point F
  /-- `min`. -/
  min : F
  /-- `EPSILON`. -/
  epsilon : F
  /-- `state_`. -/
  state : NelderMead.IterationState
  /-- `constraint_min`. -/
  constraintMin : NelderMead.Point F
  /-- `constraint_max`. -/
  constraintMax : NelderMead.Point F

namespace NelderMead

open Double

section Steps

variable {F : Type} [Double F]

/-- One coordinate in `my_constraints`: the middle of the margins replaces it outside of them, and
it is rounded. -/
def constrain (low high x : F) : F :=
  Double.round (if x < low ∨ high < x then (low + high) / literal 2 else x)

/-- `my_constraints`. -/
def myConstraints (self : NelderMead F) (x : Point F) : Point F :=
  fun j => constrain (self.constraintMin j) (self.constraintMax j) (x j)

/-- The constructor, with what is in the memory of the object. -/
def create (memory : NelderMead F) (eps : F) : NelderMead F :=
  { memory with epsilon := eps, itr := 0, state := .start }

/-- `initialize_simplex`. Its loop also goes over the two margins, and one entry further. -/
def initializeSimplex (self : NelderMead F) (params : Fin 3 → Point F) (values : Fin 3 → F)
    (constraintMin constraintMax : Point F) : NelderMead F :=
  { self with v := params, f := values, constraintMin, constraintMax, itr := 0 }

/-- `vg_index`. -/
def vgIndex (self : NelderMead F) : Fin 3 :=
  (List.finRange 3).foldl (fun vg j => if self.f vg < self.f j then j else vg) 0

/-- `vs_index`. -/
def vsIndex (self : NelderMead F) : Fin 3 :=
  (List.finRange 3).foldl (fun vs j => if self.f j < self.f vs then j else vs) 0

/-- `vh_index`, which starts from the last index. -/
def vhIndex (self : NelderMead F) : Fin 3 :=
  (List.finRange 3).foldl
    (fun vh j => if self.f vh < self.f j ∧ self.f j < self.f self.vg then j else vh) self.vh

/-- `centroid`: the middle of the vertices other than the worst. -/
def centroid (self : NelderMead F) : Point F := fun j =>
  (List.finRange 3).foldl (fun cent m => if m ≠ self.vg then cent + self.v m j else cent)
    (literal 0) / literal 2

/-- The indices of the largest, the smallest and the second largest value. -/
def findIndices (self : NelderMead F) : NelderMead F :=
  let self := { self with vg := self.vgIndex }
  let self := { self with vs := self.vsIndex }
  { self with vh := self.vhIndex }

/-- The loop over the coordinates in which a vertex is replaced, with its value. -/
def replace (self : NelderMead F) (row : Fin 3) (x : Point F) (value : F) : NelderMead F :=
  { self with v := Function.update self.v row x, f := Function.update self.f row value }

/-- A vertex is moved into the constraints. -/
def correct (self : NelderMead F) (row : Fin 3) : NelderMead F :=
  { self with v := Function.update self.v row (self.myConstraints (self.v row)) }

/-- `updateObjectives`. The calls of the objective function are comments. -/
def updateObjectives (self : NelderMead F) : NelderMead F :=
  let self := self.findIndices
  let self := self.correct self.vg
  self.correct self.vh

/-- A vertex in the shrink loop: it is moved into the constraints after each coordinate. -/
def shrinkVertex (self : NelderMead F) (row : Fin 3) : Point F :=
  (List.finRange 2).foldl
    (fun x j => self.myConstraints (Function.update x j
      (self.v self.vs j + (x j - self.v self.vs j) / literal 2))) (self.v row)

/-- The shrink loop: every vertex but the best is moved towards the best. -/
def shrink (self : NelderMead F) : NelderMead F :=
  { self with v := fun row => if row ≠ self.vs then self.shrinkVertex row else self.v row }

/-- `testConvergence`. -/
def testConvergence (self : NelderMead F) : Bool × NelderMead F :=
  let fsum := (List.finRange 3).foldl (fun fsum j => fsum + self.f j) (literal 0)
  let favg := fsum / literal 3
  let s := (List.finRange 3).foldl
    (fun s j => s + pow (self.f j - favg) (literal 2) / literal 2) (literal 0)
  let s := Double.sqrt s / favg
  if self.epsilon ≤ s ∧ self.itr ≤ maxIterations then (false, self)
  else
    let self := { self with vs := self.vsIndex }
    (true, { self with min := self.f self.vs })

/-- The point that the last call has proposed: the one that the next value is for. -/
def pending (self : NelderMead F) : Option (Point F) :=
  match self.state with
  | .start => none
  | .reflection => some self.vr
  | .expansion => some self.ve
  | .contraction => some self.vc

/-- `step` in the state `start`. -/
def stepStart (self : NelderMead F) : NelderMead F :=
  let self := { self with itr := self.itr + 1 }
  let self := self.findIndices
  let self := { self with vm := self.centroid }
  let vr : Point F := fun j => self.vm j + alpha * (self.vm j - self.v self.vg j)
  { self with vr := self.myConstraints vr, state := .reflection }

/-- The reflection point is better than the best vertex: the next point is further out. -/
def expand (self : NelderMead F) : NelderMead F :=
  let ve : Point F := fun j => self.vm j + gamma * (self.vr j - self.vm j)
  { self with ve := self.myConstraints ve, state := .expansion }

/-- The contraction after a reflection point that is not better than the second worst vertex.
The comparison with the worst vertex is made after the reflection point may have replaced it. -/
def contract (self : NelderMead F) : NelderMead F :=
  let vc : Point F :=
    if self.fr < self.f self.vg ∧ self.f self.vh ≤ self.fr then
      fun j => self.vm j + beta * (self.vr j - self.vm j)
    else fun j => self.vm j - beta * (self.vm j - self.v self.vg j)
  { self with vc := self.myConstraints vc, state := .contraction }

/-- `step` in the state `reflection`. -/
def stepReflection (self : NelderMead F) (param : F) : NelderMead F :=
  let self := { self with fr := param }
  if self.fr < self.f self.vh then
    if self.f self.vs ≤ self.fr then
      { (self.replace self.vg self.vr self.fr).updateObjectives with state := .start }
    else self.expand
  else if self.fr < self.f self.vg then (self.replace self.vg self.vr self.fr).contract
  else self.contract

/-- `step` in the state `expansion`. -/
def stepExpansion (self : NelderMead F) (param : F) : NelderMead F :=
  let self := { self with fe := param }
  let self :=
    if self.fe < self.f self.vs then self.replace self.vg self.ve self.fe
    else self.replace self.vg self.vr self.fr
  { self.updateObjectives with state := .start }

/-- `step` in the state `contraction`. -/
def stepContraction (self : NelderMead F) (param : F) : NelderMead F :=
  let self := { self with fc := param }
  let self :=
    if self.fc < self.f self.vg then self.replace self.vg self.vc self.fc else self.shrink
  { self.updateObjectives with state := .start }

/-- The branches of `step`. -/
def advance (self : NelderMead F) (param : F) : NelderMead F :=
  match self.state with
  | .start => self.stepStart
  | .reflection => self.stepReflection param
  | .expansion => self.stepExpansion param
  | .contraction => self.stepContraction param

/-- `step`. The parameters that it returns are those of the point that it proposes. -/
def step (self : NelderMead F) (param : F) : OptStepResult F × NelderMead F :=
  let self := self.advance param
  let (converged, self) := self.testConvergence
  match self.pending with
  | none => (⟨converged, literal 0, -1⟩, self)
  | some x => (⟨converged, x 0, toInt (x 1)⟩, self)

/-- The parameters of a point are within the constraints: there are as many threads, and there is
such a frequency. -/
def Within (maxThreads : Nat) (frequencies : List Nat) (x : Point F) : Prop :=
  literal 1 ≤ x 0 ∧ x 0 ≤ literal maxThreads ∧
    0 ≤ toInt (x 1) ∧ toInt (x 1) < frequencies.length

/-- The parameters that are returned are those of the pending point. -/
theorem step_proposes {self self' : NelderMead F} {param : F} {res : OptStepResult F}
    {x : Point F} (called : self.step param = (res, self')) (proposed : self'.pending = some x) :
    res.threads = x 0 ∧ res.freqIdx = toInt (x 1) := by
  simp only [step] at called
  split at called
  · next found =>
    obtain ⟨-, rfl⟩ := Prod.mk.inj called
    rw [found] at proposed
    cases proposed
  · next y found =>
    obtain ⟨rfl, rfl⟩ := Prod.mk.inj called
    rw [found] at proposed
    cases proposed
    exact ⟨rfl, rfl⟩

end Steps

/-! ## Samples -/

section Samples

variable {F : Type} [Double F]

/-- A search, and the objective values that have been sampled, each with the point. -/
structure Search (F : Type) where
  /-- The optimizer. -/
  nmd : NelderMead F
  /-- The points and values. -/
  samples : List (Point F × F)

/-- Every value of the simplex has been sampled at the vertex it is stored for. -/
def Search.Sampled (t : Search F) : Prop :=
  ∀ i, (t.nmd.v i, t.nmd.f i) ∈ t.samples

/-- A call of `step` with a value that is sampled at the point that the last call has proposed. -/
def Search.next (t : Search F) (param : F) : Search F :=
  ⟨(t.nmd.step param).2, (t.nmd.pending.map fun x => (x, param)).toList ++ t.samples⟩

/-- The searches from an initial simplex whose vertices have been sampled before. -/
def search (memory : NelderMead F) (eps : F) (params : Fin 3 → Point F) (values : Fin 3 → F)
    (constraintMin constraintMax : Point F) : System (Search F) F where
  start := ⟨(create memory eps).initializeSimplex params values constraintMin constraintMax,
    List.ofFn fun i => (params i, values i)⟩
  step t param t' := t' = t.next param

/-- The correction at the end of a step leaves the vertices in place that it is applied to. -/
def InPlace (self : NelderMead F) : Prop :=
  self.myConstraints (self.v self.findIndices.vg) = self.v self.findIndices.vg ∧
    self.myConstraints (self.v self.findIndices.vh) = self.v self.findIndices.vh

/-- No vertex is moved that keeps its value: the correction leaves the vertices in place, and so
does the shrink when the value is not better than the worst vertex at the contraction point. -/
def Unmoved (self : NelderMead F) (param : F) : Prop :=
  match self.state with
  | .start => True
  | .reflection =>
    param < self.f self.vh → self.f self.vs ≤ param → (self.replace self.vg self.vr param).InPlace
  | .expansion =>
    if param < self.f self.vs then (self.replace self.vg self.ve param).InPlace
    else (self.replace self.vg self.vr self.fr).InPlace
  | .contraction =>
    if param < self.f self.vg then (self.replace self.vg self.vc param).InPlace
    else (∀ row, row ≠ self.vs → self.shrinkVertex row = self.v row) ∧ self.InPlace

/-- The vertices and values, and the reflection point with its value while the expansion point is
sampled, are samples. -/
structure Consistent (nmd : NelderMead F) (samples : List (Point F × F)) : Prop where
  /-- The vertices. -/
  vertices : ∀ i, (nmd.v i, nmd.f i) ∈ samples
  /-- The reflection point. -/
  reflected : nmd.state = .expansion → (nmd.vr, nmd.fr) ∈ samples

omit [Double F] in
/-- Later samples leave the earlier ones. -/
theorem Consistent.mono {self : NelderMead F} {samples samples' : List (Point F × F)}
    (consistent : self.Consistent samples) (more : samples ⊆ samples') :
    self.Consistent samples' :=
  ⟨fun i => more (consistent.vertices i), fun state => more (consistent.reflected state)⟩

omit [Double F] in
/-- A vertex is replaced by a sample. -/
theorem replace_sampled (self : NelderMead F) {samples : List (Point F × F)} {x : Point F}
    {value : F} (row : Fin 3) (vertices : ∀ i, (self.v i, self.f i) ∈ samples)
    (sampled : (x, value) ∈ samples) (i : Fin 3) :
    ((self.replace row x value).v i, (self.replace row x value).f i) ∈ samples := by
  unfold replace
  by_cases here : i = row
  · subst i
    simpa only [Function.update_self] using sampled
  · simpa only [Function.update_of_ne here] using vertices i

/-- A correction that leaves the vertex in place does nothing. -/
theorem correct_eq {self : NelderMead F} {row : Fin 3}
    (same : self.myConstraints (self.v row) = self.v row) : self.correct row = self := by
  unfold correct
  rw [same, Function.update_eq_self]

/-- When the corrections leave the vertices in place, only the indices are found again. -/
theorem updateObjectives_eq {self : NelderMead F} (inPlace : self.InPlace) :
    self.updateObjectives = self.findIndices := by
  unfold updateObjectives
  have worst : self.findIndices.correct self.findIndices.vg = self.findIndices :=
    correct_eq inPlace.1
  simp only [worst]
  exact correct_eq inPlace.2

/-- The end of an iteration whose corrections leave the vertices in place. -/
theorem updateObjectives_consistent {self : NelderMead F} {samples : List (Point F × F)}
    (vertices : ∀ i, (self.v i, self.f i) ∈ samples) (inPlace : self.InPlace) :
    Consistent { self.updateObjectives with state := .start } samples := by
  rw [updateObjectives_eq inPlace]
  exact ⟨vertices, fun expanding => nomatch expanding⟩

/-- A shrink that moves no vertex does nothing. -/
theorem shrink_eq {self : NelderMead F}
    (same : ∀ row, row ≠ self.vs → self.shrinkVertex row = self.v row) : self.shrink = self := by
  unfold shrink
  have vertices : (fun row => if row ≠ self.vs then self.shrinkVertex row else self.v row) =
      self.v := by
    funext row
    by_cases other : row ≠ self.vs
    · rw [if_pos other, same row other]
    · rw [if_neg other]
  rw [vertices]

/-- The contraction point is found without the vertices being moved. -/
theorem contract_consistent {self : NelderMead F} {samples : List (Point F × F)}
    (vertices : ∀ i, (self.v i, self.f i) ∈ samples) : self.contract.Consistent samples :=
  ⟨vertices, fun expanding => nomatch expanding⟩

/-- The test for convergence leaves the simplex and the state unchanged. -/
theorem testConvergence_consistent {self : NelderMead F} {samples : List (Point F × F)}
    (consistent : self.Consistent samples) : self.testConvergence.2.Consistent samples := by
  simp only [testConvergence]
  split
  · exact consistent
  · exact ⟨consistent.vertices, consistent.reflected⟩

/-- `step` leaves the optimizer as its branch and the test for convergence do. -/
theorem step_snd (self : NelderMead F) (param : F) :
    (self.step param).2 = (self.advance param).testConvergence.2 := by
  simp only [step]
  split <;> rfl

/-- A branch of `step` that moves no vertex stores the new value at the point it is for. -/
theorem advance_consistent {self : NelderMead F} {samples : List (Point F × F)} {param : F}
    (consistent : self.Consistent samples) (unmoved : self.Unmoved param)
    (sampled : ∀ x, self.pending = some x → (x, param) ∈ samples) :
    (self.advance param).Consistent samples := by
  have vertices := consistent.vertices
  unfold Unmoved at unmoved
  unfold advance
  cases state : self.state with
  | start => exact ⟨vertices, fun expanding => nomatch expanding⟩
  | reflection =>
    have reflected : (self.vr, param) ∈ samples := by
      apply sampled
      simp only [pending, state]
    have replaced := replace_sampled { self with fr := param } self.vg vertices reflected
    simp only [state] at unmoved
    simp only [stepReflection]
    split_ifs with better best worse
    · exact updateObjectives_consistent replaced (unmoved better best)
    · exact ⟨vertices, fun _ => reflected⟩
    · exact contract_consistent replaced
    · exact contract_consistent vertices
  | expansion =>
    have expanded : (self.ve, param) ∈ samples := by
      apply sampled
      simp only [pending, state]
    simp only [state] at unmoved
    simp only [stepExpansion]
    split_ifs at unmoved ⊢ with better
    · exact updateObjectives_consistent
        (replace_sampled { self with fe := param } self.vg vertices expanded) unmoved
    · exact updateObjectives_consistent
        (replace_sampled { self with fe := param } self.vg vertices
          (consistent.reflected state)) unmoved
  | contraction =>
    have contracted : (self.vc, param) ∈ samples := by
      apply sampled
      simp only [pending, state]
    simp only [state] at unmoved
    simp only [stepContraction]
    split_ifs at unmoved ⊢ with better
    · exact updateObjectives_consistent
        (replace_sampled { self with fc := param } self.vg vertices contracted) unmoved
    · have same : ({ self with fc := param } : NelderMead F).shrink = { self with fc := param } :=
        shrink_eq unmoved.1
      rw [same]
      exact updateObjectives_consistent vertices unmoved.2

variable {memory : NelderMead F} {eps : F} {params : Fin 3 → Point F} {values : Fin 3 → F}
  {constraintMin constraintMax : Point F}

/-- In every run whose steps move no vertex that keeps its value, every value of the simplex has
been sampled at the coordinates that its vertex holds. -/
theorem sampled_run {history : List (Search F × F)} {t : Search F}
    (run : (search memory eps params values constraintMin constraintMax).Run history t)
    (unmoved : System.Meets (fun t param => t.nmd.Unmoved param) history) :
    System.Always Search.Sampled history t := by
  have always := run.always (P := fun t => t.nmd.Consistent t.samples) ?_ ?_ unmoved
  · exact always.imp fun _ consistent => consistent.vertices
  · refine ⟨fun i => ?_, fun expanding => nomatch expanding⟩
    exact List.mem_ofFn.mpr ⟨i, rfl⟩
  · rintro t param t' consistent unmoved rfl
    simp only [Search.next, step_snd]
    apply testConvergence_consistent
    apply advance_consistent (consistent.mono (List.subset_append_right _ _)) unmoved
    intro x proposed
    rw [proposed]
    exact List.mem_append_left _ List.mem_cons_self

end Samples

section Exact

/-- Numbers that are computed exactly. -/
def Exact : Type := ℚ
  deriving DecidableEq

/-- The operations on the numbers; the halves are rounded away from zero. -/
instance exactDouble : Double Exact where
  add := fun x y : ℚ => (x + y : ℚ)
  sub := fun x y : ℚ => (x - y : ℚ)
  mul := fun x y : ℚ => (x * y : ℚ)
  div := fun x y : ℚ => (x / y : ℚ)
  lt := fun x y : ℚ => x < y
  le := fun x y : ℚ => x ≤ y
  literal := fun x => x
  round := fun x : ℚ => ((if 0 ≤ x then ⌊x + 1 / 2⌋ else ⌈x - 1 / 2⌉ : Int) : ℚ)
  sqrt := fun x : ℚ => Rat.sqrt x
  pow := fun x y : ℚ => (x ^ y.num : ℚ)
  toInt := fun x : ℚ => if 0 ≤ x then ⌊x⌋ else ⌈x⌉
  decideLT := fun x y : ℚ => inferInstanceAs (Decidable (x < y))
  decideLE := fun x y : ℚ => inferInstanceAs (Decidable (x ≤ y))

/-- A vertex. -/
def vertex (threads freq : ℚ) : Point Exact := ![threads, freq]

/-- The memory of an optimizer in which every byte is zero. -/
def zeroed : NelderMead Exact where
  vs := 0
  vh := 0
  vg := 0
  itr := 0
  v := fun _ => vertex 0 0
  f := fun _ => literal 0
  fr := literal 0
  fe := literal 0
  fc := literal 0
  vr := vertex 0 0
  ve := vertex 0 0
  vc := vertex 0 0
  vm := vertex 0 0
  min := literal 0
  epsilon := literal 0
  state := .start
  constraintMin := vertex 0 0
  constraintMax := vertex 0 0

/-- The searches for one to eight threads and five frequencies, from three samples. -/
def threeSamples : System (Search Exact) Exact :=
  search zeroed (literal (1 / 100)) ![vertex 2 1, vertex 6 1, vertex 2 3]
    ![literal 1, literal 2, literal 3] (vertex 1 0) (vertex 8 4)

instance decidableSampled (t : Search Exact) : Decidable t.Sampled :=
  inferInstanceAs (Decidable (∀ i, (t.nmd.v i, t.nmd.f i) ∈ t.samples))

instance decidableInPlace (self : NelderMead Exact) : Decidable self.InPlace :=
  inferInstanceAs (Decidable (_ ∧ _))

/-- The reflection point is better than the second worst vertex, and replaces the worst. -/
theorem sampled_run_two : ∃ (history : List (Search Exact × Exact)) (t : Search Exact),
    threeSamples.Run history t ∧ history.length = 2 ∧ t.nmd.v 2 = vertex 6 2 ∧
      t.nmd.f 2 = literal (3 / 2) ∧ System.Always Search.Sampled history t := by
  let first := threeSamples.start.next (literal 0)
  let second := first.next (literal (3 / 2))
  have run : threeSamples.Run [(first, literal (3 / 2)), (threeSamples.start, literal 0)] second :=
    (System.Run.start.step rfl).step rfl
  have unmoved : System.Meets (fun (t : Search Exact) param => t.nmd.Unmoved param)
      [(first, literal (3 / 2)), (threeSamples.start, literal 0)] := by
    intro taken found
    rcases List.mem_pair.mp found with rfl | rfl
    · have reflecting : first.nmd.state = .reflection := by decide +kernel
      simp only [Unmoved, reflecting]
      intro _ _
      decide +kernel
    · trivial
  exact ⟨_, _, run, rfl, by decide +kernel, by decide +kernel, sampled_run run unmoved⟩

/-- Neither the reflection nor the contraction point is better than the worst vertex. The shrink
moves a vertex to four threads, with the value that has been sampled for six. -/
theorem not_sampled : ∃ (history : List (Search Exact × Exact)) (t : Search Exact),
    threeSamples.Run history t ∧ t.nmd.v 1 = vertex 4 1 ∧ t.nmd.f 1 = literal 2 ∧
      (vertex 6 1, literal 2) ∈ t.samples ∧ ¬ t.Sampled := by
  let first := threeSamples.start.next (literal 0)
  let second := first.next (literal 4)
  let third := second.next (literal 5)
  have run : threeSamples.Run
      [(second, literal 5), (first, literal 4), (threeSamples.start, literal 0)] third :=
    ((System.Run.start.step rfl).step rfl).step rfl
  exact ⟨_, _, run, by decide +kernel, by decide +kernel, by decide +kernel, by decide +kernel⟩

end Exact

end NelderMead

end AllScale
