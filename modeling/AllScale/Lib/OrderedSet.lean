import Mathlib.Tactic.Common

/-!
# Ordered sets as lists

A set that is kept in the order of a comparison, as a list without equivalent elements. An element
is inserted behind all that are less, unless an equivalent one is there. The facts here need nothing
of the comparison.
-/

namespace OrderedSet

variable {α β : Type}

/-- Inserts an element before the first one that it is less than, unless an equivalent one is
found. -/
def insert (less : α → α → Bool) (x : α) : List α → List α
  | [] => [x]
  | y :: ys =>
    if less x y then x :: y :: ys
    else if less y x then y :: insert less x ys
    else y :: ys

variable {less : α → α → Bool} {x y : α} {set : List α}

/-- Nothing else than the element is added. -/
theorem mem_of_mem_insert (found : y ∈ insert less x set) : y = x ∨ y ∈ set := by
  induction set with
  | nil => exact Or.inl (List.mem_singleton.mp found)
  | cons z set ih =>
    rw [insert] at found
    split at found
    · exact List.mem_cons.mp found
    · split at found
      · rcases List.mem_cons.mp found with rfl | found
        · exact Or.inr List.mem_cons_self
        · exact (ih found).imp_right (List.mem_cons_of_mem _)
      · exact Or.inr found

/-- Nothing is removed. -/
theorem mem_insert_of_mem (found : y ∈ set) : y ∈ insert less x set := by
  induction set with
  | nil => exact absurd found List.not_mem_nil
  | cons z set ih =>
    rw [insert]
    split
    · exact List.mem_cons_of_mem _ found
    · split
      · rcases List.mem_cons.mp found with rfl | found
        · exact List.mem_cons_self
        · exact List.mem_cons_of_mem _ (ih found)
      · exact found

/-- The element is added unless there is an equivalent one. -/
theorem mem_insert_or_equivalent (less : α → α → Bool) (x : α) (set : List α) :
    x ∈ insert less x set ∨ ∃ y ∈ set, less x y = false ∧ less y x = false := by
  induction set with
  | nil => exact Or.inl List.mem_cons_self
  | cons y set ih =>
    rw [insert]
    split
    · exact Or.inl List.mem_cons_self
    · rename_i before
      split
      · rcases ih with added | ⟨z, found, equivalent⟩
        · exact Or.inl (List.mem_cons_of_mem _ added)
        · exact Or.inr ⟨z, List.mem_cons_of_mem _ found, equivalent⟩
      · rename_i behind
        exact Or.inr ⟨y, List.mem_cons_self, Bool.eq_false_iff.mpr before,
          Bool.eq_false_iff.mpr behind⟩

/-- The set stays as it is, or it has the element in addition. -/
theorem insert_eq_or_perm (less : α → α → Bool) (x : α) (set : List α) :
    insert less x set = set ∨ (insert less x set).Perm (x :: set) := by
  induction set with
  | nil => exact .inr (.refl _)
  | cons y set ih =>
    rw [insert]
    split
    · exact .inr (.refl _)
    · split
      · rcases ih with same | perm
        · exact .inl (by rw [same])
        · exact .inr ((perm.cons y).trans (.swap x y set))
      · exact .inl rfl

/-- The element is there afterwards when no other element is equivalent. -/
theorem mem_insert_self (apart : ∀ y ∈ set, y ≠ x → less x y = true ∨ less y x = true) :
    x ∈ insert less x set := by
  rcases mem_insert_or_equivalent less x set with added | ⟨y, found, notLess, notGreater⟩
  · exact added
  · by_cases same : y = x
    · exact mem_insert_of_mem (same ▸ found)
    · rcases apart y found same with less' | greater
      · exact nomatch less'.symm.trans notLess
      · exact nomatch greater.symm.trans notGreater

/-- After an insertion there is an element. -/
theorem insert_ne_nil (less : α → α → Bool) (x : α) (set : List α) : insert less x set ≠ [] := by
  cases set with
  | nil => exact List.cons_ne_nil _ _
  | cons y set =>
    rw [insert]
    split
    · exact List.cons_ne_nil _ _
    · split <;> exact List.cons_ne_nil _ _

/-- Inserts the images of all elements of a list, one after the other. -/
def insertAll (less : α → α → Bool) (key : β → α) (elements : List β) (set : List α) : List α :=
  elements.foldl (fun set element => insert less (key element) set) set

variable {key : β → α} {elements : List β}

/-- Nothing else than the images is added. -/
theorem mem_of_mem_insertAll (found : y ∈ insertAll less key elements set) :
    (∃ element ∈ elements, y = key element) ∨ y ∈ set := by
  induction elements generalizing set with
  | nil => exact Or.inr found
  | cons element elements ih =>
    rcases ih found with ⟨later, inside, same⟩ | found
    · exact Or.inl ⟨later, List.mem_cons_of_mem _ inside, same⟩
    · rcases mem_of_mem_insert found with same | found
      · exact Or.inl ⟨element, List.mem_cons_self, same⟩
      · exact Or.inr found

/-- Nothing is removed. -/
theorem mem_insertAll_of_mem (found : y ∈ set) : y ∈ insertAll less key elements set := by
  induction elements generalizing set with
  | nil => exact found
  | cons element elements ih => exact ih (mem_insert_of_mem found)

/-- There is an element when there was one or one has been inserted. -/
theorem insertAll_ne_nil (nonempty : set ≠ [] ∨ elements ≠ []) :
    insertAll less key elements set ≠ [] := by
  cases elements with
  | nil =>
    rcases nonempty with nonempty | nonempty
    · exact nonempty
    · exact absurd rfl nonempty
  | cons element elements =>
    obtain ⟨y, found⟩ := List.exists_mem_of_ne_nil _ (insert_ne_nil less (key element) set)
    have kept : y ∈ insertAll less key elements (insert less (key element) set) :=
      mem_insertAll_of_mem found
    exact List.ne_nil_of_mem kept

/-- Inserts the elements of a list that a test admits, which sees the set as it is by then. -/
def insertAdmitted (less : α → α → Bool) (eligible : List α → α → Bool) :
    (elements set : List α) → List α
  | [], set => set
  | x :: elements, set =>
    insertAdmitted less eligible elements (if eligible set x then insert less x set else set)

variable {eligible : List α → α → Bool}

/-- In one step nothing else than the element is added. -/
theorem mem_of_mem_step (found : y ∈ if eligible set x then insert less x set else set) :
    y = x ∨ y ∈ set := by
  split at found
  · exact mem_of_mem_insert found
  · exact .inr found

/-- In one step nothing is removed. -/
theorem mem_step_of_mem (found : y ∈ set) :
    y ∈ if eligible set x then insert less x set else set := by
  split
  · exact mem_insert_of_mem found
  · exact found

/-- Nothing else than the elements is added. -/
theorem mem_of_mem_insertAdmitted {elements : List α}
    (found : y ∈ insertAdmitted less eligible elements set) : y ∈ elements ∨ y ∈ set := by
  induction elements generalizing set with
  | nil => exact Or.inr found
  | cons x elements ih =>
    rcases ih found with later | found
    · exact Or.inl (List.mem_cons_of_mem _ later)
    · rcases mem_of_mem_step found with rfl | found
      · exact Or.inl List.mem_cons_self
      · exact Or.inr found

/-- Nothing is removed. -/
theorem mem_insertAdmitted_of_mem {elements : List α} (found : y ∈ set) :
    y ∈ insertAdmitted less eligible elements set := by
  induction elements generalizing set with
  | nil => exact found
  | cons x elements ih => exact ih (mem_step_of_mem found)

section Better

/-! An element is admitted unless a member is better, and no two elements are equivalent. -/

variable {better : α → α → Bool}
  (admits : ∀ set x, eligible set x = true ↔ ∀ m ∈ set, better m x = false)
  {elements before after : List α}
include admits

/-- An element is inserted when neither a member of the set nor an element before it is better. -/
theorem mem_insertAdmitted_of_best (split : elements = before ++ x :: after)
    (apart : ∀ y, y ∈ set ∨ y ∈ before → y ≠ x → less x y = true ∨ less y x = true)
    (best : ∀ y, y ∈ set ∨ y ∈ before → better y x = false) :
    x ∈ insertAdmitted less eligible elements set := by
  subst split
  induction before generalizing set with
  | nil =>
    have admitted := (admits set x).mpr fun m found => best m (.inl found)
    rw [List.nil_append, insertAdmitted, if_pos admitted]
    exact mem_insertAdmitted_of_mem (mem_insert_self fun y found => apart y (.inl found))
  | cons first before ih =>
    have members {y : α} (found : y ∈ (if eligible set first then insert less first set else set) ∨
        y ∈ before) : y ∈ set ∨ y ∈ first :: before := by
      rcases found with found | found
      · rcases mem_of_mem_step found with rfl | found
        · exact .inr List.mem_cons_self
        · exact .inl found
      · exact .inr (List.mem_cons_of_mem _ found)
    rw [List.cons_append, insertAdmitted]
    exact ih (fun y found => apart y (members found)) fun y found => best y (members found)

/-- An element that is not in the set is not inserted when a member of the set or an element before
it is better. -/
theorem not_mem_insertAdmitted (split : elements = before ++ x :: after) (fresh : x ∉ set)
    (once : x ∉ before ∧ x ∉ after)
    (apart : ∀ y ∈ before, ∀ z, z ∈ set ∨ z ∈ before → z ≠ y → less y z = true ∨ less z y = true)
    (trans : ∀ a b c, better a b = true → better b c = true → better a c = true)
    (worse : ∃ y, (y ∈ set ∨ y ∈ before) ∧ better y x = true) :
    x ∉ insertAdmitted less eligible elements set := by
  subst split
  induction before generalizing set with
  | nil =>
    obtain ⟨y, found, greater⟩ := worse
    have there := found.resolve_right List.not_mem_nil
    have refused : ¬ eligible set x = true := fun admitted =>
      nomatch greater.symm.trans ((admits set x).mp admitted y there)
    rw [List.nil_append, insertAdmitted, if_neg refused]
    intro found
    rcases mem_of_mem_insertAdmitted found with later | before
    · exact once.2 later
    · exact fresh before
  | cons first before ih =>
    have other : x ≠ first := fun same => once.1 (same ▸ List.mem_cons_self)
    rw [List.cons_append, insertAdmitted]
    refine ih ?_ ⟨fun found => once.1 (List.mem_cons_of_mem _ found), once.2⟩ ?_ ?_
    · exact fun found => (mem_of_mem_step found).elim other fresh
    · intro y found z member
      refine apart y (List.mem_cons_of_mem _ found) z ?_
      rcases member with member | member
      · rcases mem_of_mem_step member with rfl | member
        · exact .inr List.mem_cons_self
        · exact .inl member
      · exact .inr (List.mem_cons_of_mem _ member)
    · obtain ⟨y, found, greater⟩ := worse
      rcases found with found | found
      · exact ⟨y, .inl (mem_step_of_mem found), greater⟩
      · rcases List.mem_cons.mp found with rfl | found
        · by_cases admitted : eligible set y = true
          · refine ⟨y, .inl ?_, greater⟩
            rw [if_pos admitted]
            exact mem_insert_self fun z member =>
              apart y List.mem_cons_self z (.inl member)
          · -- what is better than a refused element is better than the element
            have refused : ∃ m ∈ set, better m y = true := by
              by_contra none
              refine admitted ((admits set y).mpr fun m member => ?_)
              exact Bool.eq_false_iff.mpr fun above => none ⟨m, member, above⟩
            obtain ⟨m, member, above⟩ := refused
            exact ⟨m, .inl (mem_step_of_mem member), trans m y x above greater⟩
        · exact ⟨y, .inr found, greater⟩

/-! A round puts the first element into the set without a test. -/

variable {first : α} {rest : List α}
  (apart : ∀ y z, y ∈ set ∨ y ∈ first :: rest → z ∈ set ∨ z ∈ first :: rest → z ≠ y →
    less y z = true ∨ less z y = true)
include apart

/-- In a round an element is inserted when neither a member of the set nor an element before it is
better. -/
theorem mem_round (irrefl : better x x = false) (split : first :: rest = before ++ x :: after)
    (best : ∀ y, y ∈ set ∨ y ∈ before → better y x = false) :
    x ∈ insertAdmitted less eligible (first :: rest) (insert less first set) := by
  have here : x ∈ first :: rest := split ▸ List.mem_append_right _ List.mem_cons_self
  refine mem_insertAdmitted_of_best admits split (fun y found => ?_) fun y found => ?_
  · refine apart x y (.inr here) ?_
    rcases found with found | found
    · rcases mem_of_mem_insert found with rfl | found
      · exact .inr List.mem_cons_self
      · exact .inl found
    · exact .inr (split ▸ List.mem_append_left _ found)
  · rcases found with found | found
    · rcases mem_of_mem_insert found with rfl | found
      · cases before with
        | nil => rwa [(List.cons.inj split).1]
        | cons head before =>
          exact best y (.inr ((List.cons.inj split).1 ▸ List.mem_cons_self))
      · exact best y (.inl found)
    · exact best y (.inr found)

/-- In a round an element behind the first one is not inserted when a member of the set or an
element before it is better. -/
theorem not_mem_round
    (trans : ∀ a b c, better a b = true → better b c = true → better a c = true)
    (nodup : (first :: rest).Nodup) (split : first :: rest = before ++ x :: after)
    (nonempty : before ≠ []) (fresh : x ∉ set)
    (worse : ∃ y, (y ∈ set ∨ y ∈ before) ∧ better y x = true) :
    x ∉ insertAdmitted less eligible (first :: rest) (insert less first set) := by
  rw [split, List.nodup_append, List.nodup_cons] at nodup
  have notBefore : x ∉ before := fun found => nodup.2.2 x found x List.mem_cons_self rfl
  have start : first ∈ before := by
    cases before with
    | nil => exact absurd rfl nonempty
    | cons head before => exact (List.cons.inj split).1 ▸ List.mem_cons_self
  have inside {y : α} (found : y ∈ before) : y ∈ first :: rest :=
    split ▸ List.mem_append_left _ found
  refine not_mem_insertAdmitted admits split (fun found => ?_) ⟨notBefore, nodup.2.1.1⟩
    (fun y found z found' => apart y z (.inr (inside found)) ?_) trans ?_
  · rcases mem_of_mem_insert found with rfl | found
    · exact notBefore start
    · exact fresh found
  · rcases found' with found' | found'
    · rcases mem_of_mem_insert found' with rfl | found'
      · exact .inr List.mem_cons_self
      · exact .inl found'
    · exact .inr (inside found')
  · obtain ⟨y, found, above⟩ := worse
    exact ⟨y, found.imp_left mem_insert_of_mem, above⟩

end Better

end OrderedSet
