import Mathlib.Order.RelClasses

/-!
# Scans for a greatest entry

A scan goes through a list of indices and remembers the one with the greatest value so far. With a
bound it passes over the values that are not below it, and then what it finds depends on the index
that it starts with. The values are compared by a strict weak order: different values may be
incomparable, as the two zeros of floating-point numbers are.
-/

namespace Scan

variable {ι α : Type} {r : α → α → Prop}

section Order

variable [IsStrictWeakOrder α r] {a b c : α}

/-- What is below a value is below everything that is not below that value. -/
theorem rel_of_rel_of_not_rel (less : r a b) (notLess : ¬ r c b) : r a c := by
  by_contra notBelow
  by_cases above : r b c
  · exact notBelow (trans_of r less above)
  · by_cases below : r c a
    · exact notLess (trans_of r below less)
    · have same := IsStrictWeakOrder.incomp_trans a c b ⟨notBelow, below⟩ ⟨notLess, above⟩
      exact same.1 less

/-- What a value is not below is below everything that the value is below. -/
theorem rel_of_not_rel_of_rel (notLess : ¬ r b a) (less : r b c) : r a c := by
  by_contra notBelow
  by_cases above : r a b
  · exact notBelow (trans_of r above less)
  · by_cases below : r c a
    · exact notLess (trans_of r less below)
    · have same := IsStrictWeakOrder.incomp_trans b a c ⟨notLess, above⟩ ⟨notBelow, below⟩
      exact same.1 less

/-- Not being below is transitive. -/
theorem not_rel_trans (first : ¬ r a b) (second : ¬ r b c) : ¬ r a c :=
  fun less => second (rel_of_not_rel_of_rel first less)

end Order

variable [DecidableRel r]

/-- The index with the greatest value. -/
def greatest (r : α → α → Prop) [DecidableRel r] (f : ι → α) (list : List ι) (start : ι) : ι :=
  list.foldl (fun best j => if r (f best) (f j) then j else best) start

/-- The index with the greatest value below a bound. -/
def greatestBelow (r : α → α → Prop) [DecidableRel r] (f : ι → α) (bound : α) (list : List ι)
    (start : ι) : ι :=
  list.foldl (fun best j => if r (f best) (f j) ∧ r (f j) bound then j else best) start

variable [IsStrictWeakOrder α r] {f : ι → α} {bound : α} {list : List ι}

/-- No value is greater than the one that a scan finds. -/
theorem not_greatest_rel (start : ι) :
    ¬ r (f (greatest r f list start)) (f start) ∧
      ∀ j ∈ list, ¬ r (f (greatest r f list start)) (f j) := by
  induction list generalizing start with
  | nil => exact ⟨irrefl_of r _, fun _ found => absurd found List.not_mem_nil⟩
  | cons first list ih =>
    rw [greatest, List.foldl_cons, ← greatest]
    by_cases greater : r (f start) (f first)
    · rw [if_pos greater]
      obtain ⟨first', rest⟩ := ih first
      refine ⟨fun less => first' (trans_of r less greater), fun j found => ?_⟩
      rcases List.mem_cons.mp found with rfl | found
      · exact first'
      · exact rest j found
    · rw [if_neg greater]
      obtain ⟨start', rest⟩ := ih start
      refine ⟨start', fun j found => ?_⟩
      rcases List.mem_cons.mp found with rfl | found
      · exact not_rel_trans start' greater
      · exact rest j found

/-- A scan with a bound stays at its start, or goes to a greater value below the bound. -/
theorem greatestBelow_cases (start : ι) :
    greatestBelow r f bound list start = start ∨
      r (f start) (f (greatestBelow r f bound list start)) ∧
        r (f (greatestBelow r f bound list start)) bound := by
  induction list generalizing start with
  | nil => exact .inl rfl
  | cons first list ih =>
    rw [greatestBelow, List.foldl_cons, ← greatestBelow]
    split
    · rename_i better
      rcases ih first with same | ⟨greater, below⟩
      · rw [same]
        exact .inr better
      · exact .inr ⟨trans_of r better.1 greater, below⟩
    · exact ih start

/-- A scan with a bound never goes to a smaller value. -/
theorem not_greatestBelow_rel_start (start : ι) :
    ¬ r (f (greatestBelow r f bound list start)) (f start) := by
  have moved : greatestBelow r f bound list start = start ∨
      r (f start) (f (greatestBelow r f bound list start)) ∧
        r (f (greatestBelow r f bound list start)) bound := greatestBelow_cases start
  rcases moved with same | ⟨greater, -⟩
  · rw [same]
    exact irrefl_of r _
  · exact asymm_of r greater

/-- No value below the bound is greater than the one that a scan with a bound finds. -/
theorem not_greatestBelow_rel (start : ι) {j : ι} (found : j ∈ list) (below : r (f j) bound) :
    ¬ r (f (greatestBelow r f bound list start)) (f j) := by
  induction list generalizing start with
  | nil => exact absurd found List.not_mem_nil
  | cons first list ih =>
    rw [greatestBelow, List.foldl_cons, ← greatestBelow]
    rcases List.mem_cons.mp found with rfl | found
    · by_cases better : r (f start) (f j) ∧ r (f j) bound
      · rw [if_pos better]
        exact not_greatestBelow_rel_start j
      · rw [if_neg better]
        intro less
        exact better ⟨rel_of_not_rel_of_rel (not_greatestBelow_rel_start start) less, below⟩
    · exact ih _ found

/-- The greatest values other than a greatest one: another index with a value that none of the
others exceeds. -/
def IsSecond (r : α → α → Prop) (f : ι → α) (worst second : ι) : Prop :=
  second ≠ worst ∧ ∀ i, i ≠ worst → ¬ r (f second) (f i)

/-- An index from which a scan with the value of a greatest one as its bound finds the second
greatest: another index, with a value as great if there is another one as great. -/
def Leads (r : α → α → Prop) (f : ι → α) (worst start : ι) : Prop :=
  start ≠ worst ∧ ((∃ i, i ≠ worst ∧ ¬ r (f i) (f worst)) → ¬ r (f start) (f worst))

/-- A scan below a greatest value finds the second greatest exactly from the indices that lead to
it. -/
theorem isSecond_greatestBelow_iff {worst : ι} (all : ∀ i, i ∈ list)
    (greatest : ∀ i, ¬ r (f worst) (f i)) (start : ι) :
    IsSecond r f worst (greatestBelow r f (f worst) list start) ↔ Leads r f worst start := by
  have moved : greatestBelow r f (f worst) list start = start ∨
      r (f start) (f (greatestBelow r f (f worst) list start)) ∧
        r (f (greatestBelow r f (f worst) list start)) (f worst) := greatestBelow_cases start
  have upper {j : ι} (below : r (f j) (f worst)) :
      ¬ r (f (greatestBelow r f (f worst) list start)) (f j) :=
    not_greatestBelow_rel start (all j) below
  constructor
  · rintro ⟨other, second⟩
    refine ⟨?_, ?_⟩
    · rintro rfl
      rcases moved with same | ⟨greater, -⟩
      · exact other same
      · exact greatest _ greater
    · rintro ⟨i, different, equal⟩ below
      have found : r (f (greatestBelow r f (f worst) list start)) (f worst) := by
        rcases moved with same | ⟨-, below'⟩
        · rw [same]
          exact below
        · exact below'
      exact second i different (rel_of_rel_of_not_rel found equal)
  · rintro ⟨other, equal⟩
    refine ⟨?_, fun i different => ?_⟩
    · rcases moved with same | ⟨-, below⟩
      · rw [same]
        exact other
      · intro same
        rw [same] at below
        exact irrefl_of r _ below
    · by_cases below : r (f i) (f worst)
      · exact upper below
      · have start' : ¬ r (f start) (f worst) := equal ⟨i, different, below⟩
        rcases moved with same | ⟨greater, below'⟩
        · rw [same]
          exact not_rel_trans start' (greatest i)
        · exact absurd (trans_of r greater below') start'

end Scan
