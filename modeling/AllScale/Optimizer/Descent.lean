import Mathlib.Order.Bounds.Basic
import AllScale.Optimizer.Tuner

/-!
# Steps of the tuner

A step of the coordinate descent changes one coordinate of the best configuration: it switches one
node, or goes to a neighbour of the frequency in the list of the available ones. Where there is
another configuration at all, four directions are enough to find one. The functions for frequencies
are written for lists in both orders, but the test of the order compares the iterators and not what
they point to, so a list in descending order is gone through the wrong way.
-/

namespace AllScale

namespace TunerConfiguration

/-! ## Frequencies -/

/-- `inc` for a frequency, with the branches for both orders of the list. The iterators are compared
by their positions. -/
def incFrequencyBranches (freqs : List Nat) (freq : Nat) : Option (Option Nat) :=
  let begin := 0
  let end_ := freqs.length
  let pos := freqs.findIdx fun available => available = freq
  if pos = freqs.length then none
  else if begin > end_ then
    if pos = 0 then some none else some freqs[pos - 1]?
  else if pos = freqs.length - 1 then some none
  else some freqs[pos + 1]?

/-- `dec` for a frequency, with the branches for both orders of the list. -/
def decFrequencyBranches (freqs : List Nat) (freq : Nat) : Option (Option Nat) :=
  let begin := 0
  let end_ := freqs.length
  let pos := freqs.findIdx fun available => available = freq
  if pos = freqs.length then none
  else if begin > end_ then
    if pos = freqs.length - 1 then some none else some freqs[pos + 1]?
  else if pos = 0 then some none
  else some freqs[pos - 1]?

/-- The branch for a descending list is never taken. -/
theorem incFrequencyBranches_eq (freqs : List Nat) (freq : Nat) :
    incFrequencyBranches freqs freq = incFrequency freqs freq := by
  unfold incFrequencyBranches incFrequency
  simp only [gt_iff_lt, Nat.not_lt_zero, if_false]

/-- The branch for a descending list is never taken. -/
theorem decFrequencyBranches_eq (freqs : List Nat) (freq : Nat) :
    decFrequencyBranches freqs freq = decFrequency freqs freq := by
  unfold decFrequencyBranches decFrequency
  simp only [gt_iff_lt, Nat.not_lt_zero, if_false]

/-- `std::find` goes to the end when there is no occurrence. -/
theorem findIdx_of_not_mem {freqs : List Nat} {freq : Nat} (fresh : freq ∉ freqs) :
    freqs.findIdx (fun available => available = freq) = freqs.length := by
  rw [List.findIdx_eq_length]
  intro available found
  rw [decide_eq_false_iff_not]
  rintro rfl
  exact fresh found

/-- `std::find` stops at the first occurrence. -/
theorem findIdx_append {before after : List Nat} {freq : Nat} (fresh : freq ∉ before) :
    (before ++ freq :: after).findIdx (fun available => available = freq) = before.length := by
  rw [List.findIdx_append, findIdx_of_not_mem fresh, List.findIdx_cons]
  simp

/-- `inc` returns for available frequencies only. -/
theorem mem_of_incFrequency {freqs : List Nat} {freq : Nat} {above : Option Nat}
    (returned : incFrequency freqs freq = some above) : freq ∈ freqs := by
  by_contra missing
  rw [incFrequency, if_pos (findIdx_of_not_mem missing)] at returned
  cases returned

/-- `dec` returns for available frequencies only. -/
theorem mem_of_decFrequency {freqs : List Nat} {freq : Nat} {below : Option Nat}
    (returned : decFrequency freqs freq = some below) : freq ∈ freqs := by
  by_contra missing
  rw [decFrequency, if_pos (findIdx_of_not_mem missing)] at returned
  cases returned

/-- `inc` returns the entry behind the frequency. -/
theorem incFrequency_append {before after : List Nat} {freq : Nat} (fresh : freq ∉ before) :
    incFrequency (before ++ freq :: after) freq = some after.head? := by
  have length : (before ++ freq :: after).length = before.length + 1 + after.length := by
    simp only [List.length_append, List.length_cons]
    omega
  unfold incFrequency
  simp only [findIdx_append fresh, length]
  rw [if_neg (by omega)]
  cases after with
  | nil => simp
  | cons next after =>
    rw [if_neg (by simp only [List.length_cons]; omega)]
    simp

/-- `dec` returns the entry before the frequency. -/
theorem decFrequency_append {before after : List Nat} {freq : Nat} (fresh : freq ∉ before) :
    decFrequency (before ++ freq :: after) freq = some before.getLast? := by
  have length : (before ++ freq :: after).length = before.length + 1 + after.length := by
    simp only [List.length_append, List.length_cons]
    omega
  unfold decFrequency
  simp only [findIdx_append fresh, length]
  rw [if_neg (by omega)]
  rcases List.eq_nil_or_concat before with rfl | ⟨earlier, last, rfl⟩
  · rfl
  · rw [if_neg (by simp)]
    simp

/-- The neighbours of a frequency: `inc` returns the next higher and `dec` the next lower frequency
of the list, if there is one, and `dec` undoes `inc`. -/
structure FrequencyNeighbours (freqs : List Nat) (freq : Nat) : Prop where
  /-- `inc`. -/
  above : ∃ above, incFrequencyBranches freqs freq = some above ∧
    ∀ next, above = some next ↔ IsLeast {other | other ∈ freqs ∧ freq < other} next
  /-- `dec`. -/
  below : ∃ below, decFrequencyBranches freqs freq = some below ∧
    ∀ next, below = some next ↔ IsGreatest {other | other ∈ freqs ∧ other < freq} next
  /-- `dec` after `inc`. -/
  undone : ∀ next, incFrequencyBranches freqs freq = some (some next) →
    decFrequencyBranches freqs next = some (some freq)

/-- In an ascending list the entry behind a frequency is the next higher one. -/
theorem isLeast_head? {before after : List Nat} {freq : Nat}
    (ascending : (before ++ freq :: after).Pairwise (· < ·)) (next : Nat) :
    after.head? = some next ↔
      IsLeast {other | other ∈ before ++ freq :: after ∧ freq < other} next := by
  rw [List.pairwise_append, List.pairwise_cons] at ascending
  obtain ⟨-, ⟨behind, sorted⟩, before_⟩ := ascending
  have higher {other : Nat} : other ∈ before ++ freq :: after ∧ freq < other ↔ other ∈ after := by
    constructor
    · rintro ⟨found, less⟩
      rcases List.mem_append.mp found with earlier | later
      · have greater := before_ other earlier freq List.mem_cons_self
        omega
      · rcases List.mem_cons.mp later with rfl | later
        · omega
        · exact later
    · intro later
      exact ⟨List.mem_append_right _ (List.mem_cons_of_mem _ later), behind other later⟩
  simp only [higher]
  cases after with
  | nil => simp [IsLeast]
  | cons first after =>
    have least : IsLeast {other | other ∈ first :: after} first := by
      refine ⟨List.mem_cons_self, fun other found => ?_⟩
      rcases List.mem_cons.mp found with rfl | found
      · exact Nat.le_refl _
      · exact Nat.le_of_lt ((List.pairwise_cons.mp sorted).1 other found)
    rw [List.head?_cons, Option.some.injEq]
    exact ⟨fun same => same ▸ least, least.unique⟩

/-- In an ascending list the entry before a frequency is the next lower one. -/
theorem isGreatest_getLast? {before after : List Nat} {freq : Nat}
    (ascending : (before ++ freq :: after).Pairwise (· < ·)) (next : Nat) :
    before.getLast? = some next ↔
      IsGreatest {other | other ∈ before ++ freq :: after ∧ other < freq} next := by
  rw [List.pairwise_append, List.pairwise_cons] at ascending
  obtain ⟨sorted, ⟨behind, -⟩, before_⟩ := ascending
  have lower {other : Nat} : other ∈ before ++ freq :: after ∧ other < freq ↔ other ∈ before := by
    constructor
    · rintro ⟨found, less⟩
      rcases List.mem_append.mp found with earlier | later
      · exact earlier
      · rcases List.mem_cons.mp later with rfl | later
        · omega
        · have greater := behind other later
          omega
    · intro earlier
      exact ⟨List.mem_append_left _ earlier, before_ other earlier freq List.mem_cons_self⟩
  simp only [lower]
  rcases List.eq_nil_or_concat before with rfl | ⟨earlier, last, rfl⟩
  · simp [IsGreatest]
  · rw [List.concat_eq_append] at sorted ⊢
    have greatest : IsGreatest {other | other ∈ earlier ++ [last]} last := by
      refine ⟨List.mem_append_right _ List.mem_cons_self, fun other found => ?_⟩
      rcases List.mem_append.mp found with found | found
      · exact Nat.le_of_lt ((List.pairwise_append.mp sorted).2.2 other found last
          List.mem_cons_self)
      · exact Nat.le_of_eq (List.mem_singleton.mp found)
    rw [List.getLast?_concat, Option.some.injEq]
    exact ⟨fun same => same ▸ greatest, greatest.unique⟩

/-- A strictly monotone list, in either order, has no entry twice. -/
theorem nodup_of_monotone {freqs : List Nat}
    (monotone : freqs.Pairwise (· < ·) ∨ freqs.Pairwise (· > ·)) : freqs.Nodup := by
  rcases monotone with ascending | descending
  · exact ascending.imp Nat.ne_of_lt
  · exact descending.imp Nat.ne_of_gt

/-- In a strictly monotone list the functions for frequencies return the neighbours of a frequency
exactly if the list is ascending. -/
theorem frequencyNeighbours_iff {freqs : List Nat}
    (monotone : freqs.Pairwise (· < ·) ∨ freqs.Pairwise (· > ·)) {freq : Nat}
    (available : freq ∈ freqs) :
    FrequencyNeighbours freqs freq ↔ freqs.Pairwise (· < ·) := by
  have distinct := nodup_of_monotone monotone
  obtain ⟨before, after, rfl, fresh⟩ := List.eq_append_cons_of_mem available
  have inc : incFrequencyBranches (before ++ freq :: after) freq = some after.head? :=
    (incFrequencyBranches_eq _ _).trans (incFrequency_append fresh)
  have dec : decFrequencyBranches (before ++ freq :: after) freq = some before.getLast? :=
    (decFrequencyBranches_eq _ _).trans (decFrequency_append fresh)
  constructor
  · intro neighbours
    rcases monotone with ascending | descending
    · exact ascending
    rw [List.pairwise_append, List.pairwise_cons] at descending
    obtain ⟨-, ⟨behind, -⟩, before_⟩ := descending
    -- an entry on either side would be returned in the wrong direction
    have last : after = [] := by
      cases after with
      | nil => rfl
      | cons next after =>
        obtain ⟨above, returned, least⟩ := neighbours.above
        rw [inc, List.head?_cons, Option.some.injEq] at returned
        have higher := ((least next).mp returned.symm).1.2
        have lower := behind next List.mem_cons_self
        omega
    have first : before = [] := by
      rcases List.eq_nil_or_concat before with rfl | ⟨earlier, next, rfl⟩
      · rfl
      · rw [List.concat_eq_append] at *
        obtain ⟨below, returned, greatest⟩ := neighbours.below
        rw [dec, List.getLast?_concat, Option.some.injEq] at returned
        have lower := ((greatest next).mp returned.symm).1.2
        have higher := before_ next (List.mem_append_right _ List.mem_cons_self) freq
          List.mem_cons_self
        omega
    rw [first, last]
    exact List.pairwise_singleton _ _
  · intro ascending
    refine ⟨⟨_, inc, isLeast_head? ascending⟩, ⟨_, dec, isGreatest_getLast? ascending⟩, ?_⟩
    intro next returned
    rw [inc, Option.some.injEq] at returned
    cases after with
    | nil => cases returned
    | cons first after =>
      rw [List.head?_cons, Option.some.injEq] at returned
      subst first
      have split : before ++ freq :: next :: after = (before ++ [freq]) ++ next :: after := by
        rw [List.append_assoc, List.singleton_append]
      have new : next ∉ before ++ [freq] := by
        rw [split] at distinct
        exact fun found => (List.nodup_append.mp distinct).2.2 next found next
          List.mem_cons_self rfl
      rw [decFrequencyBranches_eq, split, decFrequency_append new, List.getLast?_concat]

/-- Three frequencies in ascending order. -/
theorem frequencyNeighbours_three : (1200 : Nat) ∈ [800, 1200, 2400] ∧
    (FrequencyNeighbours [800, 1200, 2400] 1200 ↔ [800, 1200, 2400].Pairwise (· < ·)) :=
  ⟨by decide, frequencyNeighbours_iff (.inl (by decide)) (by decide)⟩

/-- In a list in descending order `inc` returns the next lower frequency. -/
theorem not_frequencyNeighbours : [2400, 1200, 800].Pairwise (· > ·) ∧
    incFrequencyBranches [2400, 1200, 800] 1200 = some (some 800) ∧
    ¬ FrequencyNeighbours [2400, 1200, 800] 1200 := by
  refine ⟨by decide, by decide, fun neighbours => ?_⟩
  obtain ⟨above, returned, least⟩ := neighbours.above
  have lower : above = some 800 := by
    have computed : incFrequencyBranches [2400, 1200, 800] 1200 = some (some 800) := by decide
    exact (Option.some.inj (computed.symm.trans returned)).symm
  have higher := ((least 800).mp lower).1.2
  omega

/-! ## Neighbours -/

/-- A configuration with an active node and an available frequency. -/
structure Usable (freqs : List Nat) (cfg : TunerConfiguration) : Prop where
  /-- Some node is active. -/
  active : true ∈ cfg.nodeMask
  /-- The frequency is available. -/
  available : cfg.frequency ∈ freqs

/-- Configurations that differ in one coordinate: one node is switched, or the frequency is the
entry behind or before the other one in the list. -/
inductive Adjacent (freqs : List Nat) (cfg : TunerConfiguration) : TunerConfiguration → Prop
  | node {before after : List Bool} {active : Bool}
      (mask : cfg.nodeMask = before ++ active :: after) :
      Adjacent freqs cfg { cfg with nodeMask := before ++ (!active) :: after }
  | above {before after : List Nat} {freq : Nat}
      (list : freqs = before ++ cfg.frequency :: freq :: after) :
      Adjacent freqs cfg { cfg with frequency := freq }
  | below {before after : List Nat} {freq : Nat}
      (list : freqs = before ++ freq :: cfg.frequency :: after) :
      Adjacent freqs cfg { cfg with frequency := freq }

/-- Adjacent configurations are for the same number of nodes. -/
theorem Adjacent.length_eq {freqs : List Nat} {cfg res : TunerConfiguration}
    (adjacent : cfg.Adjacent freqs res) : res.nodeMask.length = cfg.nodeMask.length := by
  cases adjacent with
  | node mask =>
    rw [mask]
    simp only [List.length_append, List.length_cons]
  | above _ => rfl
  | below _ => rfl

/-- When no frequency is listed twice, adjacent configurations are different. -/
theorem Adjacent.ne {freqs : List Nat} {cfg res : TunerConfiguration}
    (adjacent : cfg.Adjacent freqs res) (distinct : freqs.Nodup) : res ≠ cfg := by
  intro same
  cases adjacent with
  | @node before after active mask =>
    have masks := congrArg nodeMask same
    rw [mask] at masks
    have switched : (!active) = active := (List.cons.inj (List.append_cancel_left masks)).1
    cases active <;> cases switched
  | @above before after freq list =>
    have repeated : freq = cfg.frequency := congrArg frequency same
    rw [list, repeated] at distinct
    exact (List.nodup_cons.mp (List.nodup_append.mp distinct).2.1).1 List.mem_cons_self
  | @below before after freq list =>
    have repeated : freq = cfg.frequency := congrArg frequency same
    rw [list, repeated] at distinct
    exact (List.nodup_cons.mp (List.nodup_append.mp distinct).2.1).1 List.mem_cons_self

/-- `inc` for a mask activates one node. -/
theorem incMask_some {mask mask' : List Bool} (returned : incMask mask = some mask') :
    ∃ before after, mask = before ++ false :: after ∧ mask' = before ++ true :: after := by
  unfold incMask at returned
  split at returned
  · cases returned
  rename_i inactive
  cases returned
  induction mask with
  | nil => exact absurd rfl inactive
  | cons first mask ih =>
    cases first with
    | false => exact ⟨[], mask, rfl, rfl⟩
    | true =>
      rw [List.count_cons_self, List.length_cons, Nat.add_right_cancel_iff] at inactive
      obtain ⟨before, after, same, activated⟩ := ih inactive
      refine ⟨true :: before, after, ?_, ?_⟩
      · rw [same]
        rfl
      · rw [activate, activated]
        rfl

/-- The loop of `dec` for a mask deactivates one node. -/
theorem exists_deactivate {mask : List Bool} (active : true ∈ mask) :
    ∃ before after, mask = before ++ true :: after ∧
      deactivate mask = before ++ false :: after := by
  induction mask with
  | nil => exact absurd active List.not_mem_nil
  | cons first mask ih =>
    cases first with
    | true => exact ⟨[], mask, rfl, rfl⟩
    | false =>
      have later : true ∈ mask := (List.mem_cons.mp active).resolve_left (by decide)
      obtain ⟨before, after, same, deactivated⟩ := ih later
      refine ⟨false :: before, after, ?_, ?_⟩
      · rw [same]
        rfl
      · rw [deactivate, deactivated]
        rfl

/-- `dec` for a mask with an active node deactivates one node, and another one stays active. -/
theorem decMask_some {mask mask' : List Bool} (active : true ∈ mask)
    (returned : decMask mask = some mask') :
    ∃ before after, mask = before ++ true :: after ∧ mask' = before ++ false :: after ∧
      true ∈ mask' := by
  unfold decMask at returned
  split at returned
  · cases returned
  rename_i several
  cases returned
  obtain ⟨before, after, same, deactivated⟩ := exists_deactivate (List.mem_reverse.mpr active)
  have mask_eq : mask = after.reverse ++ true :: before.reverse := by
    rw [← List.reverse_reverse mask, same]
    simp
  have result : (deactivate mask.reverse).reverse = after.reverse ++ false :: before.reverse := by
    rw [deactivated]
    simp
  have count : mask.count true = after.reverse.count true + (before.reverse.count true + 1) := by
    rw [mask_eq, List.count_append, List.count_cons_self]
  have others : 0 < (after.reverse ++ false :: before.reverse).count true := by
    rw [List.count_append, List.count_cons_of_ne (by decide)]
    have one : 0 < mask.count true := List.count_pos_iff.mpr active
    omega
  exact ⟨_, _, mask_eq, result, by rw [result]; exact List.count_pos_iff.mp others⟩

/-- The frequency of a usable configuration has the entries around it as its neighbours. -/
theorem Usable.frequencies {freqs : List Nat} {cfg : TunerConfiguration}
    (usable : cfg.Usable freqs) :
    ∃ before after, freqs = before ++ cfg.frequency :: after ∧
      incFrequency freqs cfg.frequency = some after.head? ∧
      decFrequency freqs cfg.frequency = some before.getLast? := by
  obtain ⟨before, after, list, fresh⟩ := List.eq_append_cons_of_mem usable.available
  refine ⟨before, after, list, ?_, ?_⟩
  · rw [list, incFrequency_append fresh]
  · rw [list, decFrequency_append fresh]

/-- For a usable configuration the assertions on frequencies hold in every direction. -/
theorem Usable.neighbour_ne_none {freqs : List Nat} {cfg : TunerConfiguration}
    (usable : cfg.Usable freqs) (dim : Dimension) (dir : Direction) :
    cfg.neighbour freqs dim dir ≠ none := by
  obtain ⟨before, after, -, inc, dec⟩ := usable.frequencies
  cases dim <;> cases dir <;> simp [neighbour, inc, dec]

/-- The neighbours of a configuration with an active node are adjacent to it, and have an active
node. -/
theorem neighbour_spec {freqs : List Nat} {cfg res : TunerConfiguration}
    (active : true ∈ cfg.nodeMask) {dim : Dimension} {dir : Direction}
    (found : cfg.neighbour freqs dim dir = some (some res)) :
    cfg.Adjacent freqs res ∧ true ∈ res.nodeMask := by
  cases dim with
  | numNodes =>
    cases dir with
    | up =>
      obtain ⟨mask, returned, rfl⟩ := Option.map_eq_some_iff.mp (Option.some.inj found)
      obtain ⟨before, after, same, rfl⟩ := incMask_some returned
      exact ⟨.node same, List.mem_append_right _ List.mem_cons_self⟩
    | down =>
      obtain ⟨mask, returned, rfl⟩ := Option.map_eq_some_iff.mp (Option.some.inj found)
      obtain ⟨before, after, same, rfl, others⟩ := decMask_some active returned
      exact ⟨.node same, others⟩
  | frequency =>
    cases dir with
    | up =>
      obtain ⟨above, returned, next⟩ := Option.map_eq_some_iff.mp found
      obtain ⟨freq, rfl, rfl⟩ := Option.map_eq_some_iff.mp next
      have usable : cfg.Usable freqs := ⟨active, mem_of_incFrequency returned⟩
      obtain ⟨before, after, list, inc, -⟩ := usable.frequencies
      rw [inc, Option.some.injEq] at returned
      obtain ⟨after, rfl⟩ := List.head?_eq_some_iff.mp returned
      exact ⟨.above list, active⟩
    | down =>
      obtain ⟨below, returned, next⟩ := Option.map_eq_some_iff.mp found
      obtain ⟨freq, rfl, rfl⟩ := Option.map_eq_some_iff.mp next
      have usable : cfg.Usable freqs := ⟨active, mem_of_decFrequency returned⟩
      obtain ⟨before, after, list, -, dec⟩ := usable.frequencies
      rw [dec, Option.some.injEq] at returned
      obtain ⟨before, rfl⟩ := List.getLast?_eq_some_iff.mp returned
      rw [List.append_assoc, List.singleton_append] at list
      exact ⟨.below list, active⟩

/-- A configuration next to one with an available frequency has an available frequency. -/
theorem Adjacent.available {freqs : List Nat} {cfg res : TunerConfiguration}
    (adjacent : cfg.Adjacent freqs res) (available : cfg.frequency ∈ freqs) :
    res.frequency ∈ freqs := by
  cases adjacent with
  | node mask => exact available
  | above list =>
    rw [list]
    simp
  | below list =>
    rw [list]
    simp

/-- When the assertion of `next` holds of a configuration with an active node, there is more than
one node or more than one frequency. -/
theorem several_of_hasSpace {freqs : List Nat} {cfg : TunerConfiguration}
    (active : true ∈ cfg.nodeMask) (space : cfg.hasSpace freqs = some true) :
    2 ≤ cfg.nodeMask.length ∨ 2 ≤ freqs.length := by
  by_contra few
  have nodes : cfg.nodeMask = [true] := by
    obtain ⟨mask, frequency⟩ := cfg
    match mask with
    | [] => exact absurd active List.not_mem_nil
    | [only] =>
      rw [List.mem_singleton.mp active]
    | _ :: _ :: _ => exact absurd (.inl (by simp)) few
  unfold hasSpace at space
  rw [nodes] at space
  have single : ((incMask [true]).isSome || (decMask [true]).isSome) = false := by decide
  rw [single] at space
  match freqs with
  | [] =>
    simp [incFrequency] at space
  | [only] =>
    by_cases same : only = cfg.frequency
    · simp [incFrequency, decFrequency, same] at space
    · simp [incFrequency, same] at space
  | _ :: _ :: _ => exact few (.inr (by simp))

/-- Where there is more than one node or more than one frequency, a usable configuration has a
neighbour. -/
theorem Usable.exists_neighbour {freqs : List Nat} {cfg : TunerConfiguration}
    (usable : cfg.Usable freqs) (several : 2 ≤ cfg.nodeMask.length ∨ 2 ≤ freqs.length) :
    ∃ dim dir res, cfg.neighbour freqs dim dir = some (some res) := by
  rcases several with nodes | entries
  · by_cases all : cfg.nodeMask.count true = cfg.nodeMask.length
    · have down : decMask cfg.nodeMask = some (deactivate cfg.nodeMask.reverse).reverse :=
        if_neg (by omega)
      refine ⟨.numNodes, .down,
        { cfg with nodeMask := (deactivate cfg.nodeMask.reverse).reverse }, ?_⟩
      rw [neighbour, down, Option.map_some]
    · have up : incMask cfg.nodeMask = some (activate cfg.nodeMask) := if_neg all
      refine ⟨.numNodes, .up, { cfg with nodeMask := activate cfg.nodeMask }, ?_⟩
      rw [neighbour, up, Option.map_some]
  · obtain ⟨before, after, list, inc, dec⟩ := usable.frequencies
    cases after with
    | cons freq after =>
      refine ⟨.frequency, .up, { cfg with frequency := freq }, ?_⟩
      rw [neighbour, inc, Option.map_some, List.head?_cons, Option.map_some]
    | nil =>
      rcases List.eq_nil_or_concat before with rfl | ⟨earlier, freq, rfl⟩
      · rw [list, List.nil_append, List.length_singleton] at entries
        omega
      · refine ⟨.frequency, .down, { cfg with frequency := freq }, ?_⟩
        rw [neighbour, dec, Option.map_some, List.concat_eq_append, List.getLast?_concat,
          Option.map_some]

end TunerConfiguration

namespace SimpleCoordinateDescent

open TunerConfiguration

variable {F : Type} {freqs : List Nat}

/-! ## The search -/

/-- A search that has returned returns the same with more rounds. -/
theorem search_mono {res : TunerConfiguration} {fuel : Nat} {self : SimpleCoordinateDescent F}
    {result : TunerConfiguration × SimpleCoordinateDescent F}
    (found : search freqs res fuel self = some result) {more : Nat} (enough : fuel ≤ more) :
    search freqs res more self = some result := by
  induction fuel generalizing self more with
  | zero => cases found
  | succ fuel ih =>
    obtain ⟨more, rfl⟩ : ∃ rest, more = rest + 1 := ⟨more - 1, by omega⟩
    rw [search] at found ⊢
    obtain ⟨neighbour, here, rest⟩ := Option.bind_eq_some_iff.mp found
    rw [here]
    cases neighbour with
    | some res => exact rest
    | none => exact ih rest (Nat.le_of_succ_le_succ enough)

/-- The search returns a neighbour. -/
theorem search_neighbour {res res' : TunerConfiguration} {fuel : Nat}
    {self self' : SimpleCoordinateDescent F}
    (found : search freqs res fuel self = some (res', self')) :
    ∃ dim dir, res.neighbour freqs dim dir = some (some res') := by
  induction fuel generalizing self with
  | zero => cases found
  | succ fuel ih =>
    rw [search] at found
    obtain ⟨neighbour, here, rest⟩ := Option.bind_eq_some_iff.mp found
    cases neighbour with
    | some res =>
      cases rest
      exact ⟨_, _, here⟩
    | none => exact ih rest

/-- Where there is no neighbour the search goes on forever. -/
theorem search_none {res : TunerConfiguration}
    (alone : ∀ dim dir, res.neighbour freqs dim dir = some none) (fuel : Nat)
    (self : SimpleCoordinateDescent F) : search freqs res fuel self = none := by
  induction fuel generalizing self with
  | zero => rfl
  | succ fuel ih =>
    rw [search, alone]
    exact ih self.nextDirection

section Next

variable [BEq F] [One F] [Neg F] [LT F] [DecidableLT F]

/-- The best configuration once a measurement has been compared with it: what the search starts
from. -/
def remembered (self : SimpleCoordinateDescent F) (currentCfg : TunerConfiguration) (score : F)
    (obj : TuningObjective F) : TunerConfiguration :=
  ((self.retarget obj).adopt currentCfg score).best

/-- The best configuration is the last best one or the measured one. -/
theorem remembered_cases (self : SimpleCoordinateDescent F) (currentCfg : TunerConfiguration)
    (score : F) (obj : TuningObjective F) :
    self.remembered currentCfg score obj = self.best ∨
      self.remembered currentCfg score obj = currentCfg := by
  have kept : (self.retarget obj).best = self.best := by
    unfold retarget
    split <;> rfl
  unfold remembered adopt
  dsimp only
  split
  · split
    · exact .inr rfl
    · exact .inl ((nextDirection_keeps _).1.trans kept)
  · split
    · exact .inr rfl
    · exact .inl kept

/-- What holds of the last best configuration and of the measured one holds of the best one. -/
theorem remembered_of {P : TunerConfiguration → Prop} {self : SimpleCoordinateDescent F}
    {currentCfg : TunerConfiguration} (best : P self.best) (measured : P currentCfg) (score : F)
    (obj : TuningObjective F) : P (self.remembered currentCfg score obj) := by
  rcases self.remembered_cases currentCfg score obj with same | same
  · rwa [same]
  · rwa [same]

/-- When the assertion holds, a call is a search from the best configuration. -/
theorem next_eq {self : SimpleCoordinateDescent F} {currentCfg : TunerConfiguration} {score : F}
    {obj : TuningObjective F} (space : currentCfg.hasSpace freqs = some true) (fuel : Nat) :
    self.next freqs currentCfg score obj fuel =
      search freqs (self.remembered currentCfg score obj) fuel
        ((self.retarget obj).adopt currentCfg score) := by
  unfold next
  rw [space]
  rfl

/-- A call that returns is such a search. -/
theorem search_of_next {self self' : SimpleCoordinateDescent F}
    {currentCfg res : TunerConfiguration} {score : F} {obj : TuningObjective F} {fuel : Nat}
    (returned : self.next freqs currentCfg score obj fuel = some (res, self')) :
    search freqs (self.remembered currentCfg score obj) fuel
      ((self.retarget obj).adopt currentCfg score) = some (res, self') := by
  obtain ⟨space, here, -⟩ := Option.bind_eq_some_iff.mp returned
  cases space with
  | true => rwa [← next_eq here]
  | false =>
    rw [next, here] at returned
    cases returned

/-- With another configuration for as many nodes and the same frequencies, a call returns after at
most four rounds. The result is adjacent to the best configuration, and has an active node. -/
theorem next_adjacent {self : SimpleCoordinateDescent F} {currentCfg : TunerConfiguration}
    {score : F} {obj : TuningObjective F}
    (usable : (self.remembered currentCfg score obj).Usable freqs)
    (active : true ∈ currentCfg.nodeMask)
    (nodes : currentCfg.nodeMask.length = self.best.nodeMask.length)
    (space : currentCfg.hasSpace freqs = some true) :
    ∃ res self', (∀ fuel, 4 ≤ fuel →
        self.next freqs currentCfg score obj fuel = some (res, self')) ∧
      self'.best = self.remembered currentCfg score obj ∧
      self'.best.Adjacent freqs res ∧ (freqs.Nodup → res ≠ self'.best) ∧
      true ∈ res.nodeMask ∧ res.nodeMask.length = self'.best.nodeMask.length := by
  have length : (self.remembered currentCfg score obj).nodeMask.length =
      currentCfg.nodeMask.length :=
    remembered_of (P := fun cfg => cfg.nodeMask.length = currentCfg.nodeMask.length) nodes.symm rfl
      score obj
  have several := several_of_hasSpace active space
  rw [← length] at several
  obtain ⟨⟨res, self'⟩, found⟩ := exists_search usable.neighbour_ne_none
    (usable.exists_neighbour several) ((self.retarget obj).adopt currentCfg score)
  have best : self'.best = self.remembered currentCfg score obj := (search_keeps found).1
  obtain ⟨dim, dir, here⟩ := search_neighbour found
  obtain ⟨adjacent, stays⟩ := neighbour_spec usable.active here
  refine ⟨res, self', fun fuel enough => ?_, best, ?_⟩
  · rw [next_eq space]
    exact search_mono found enough
  · rw [best]
    exact ⟨adjacent, adjacent.ne, stays, adjacent.length_eq⟩

end Next

/-- The tuner has measured two nodes with a score of one, and the next measurement is worse. -/
theorem next_adjacent_two :
    ∃ res self', (∀ fuel, 4 ≤ fuel →
        (⟨.numNodes, .down, speedObjective, twoActive, 1⟩ : SimpleCoordinateDescent ℚ).next [1, 2]
          ⟨[true, false], 1⟩ (1 / 2) speedObjective fuel = some (res, self')) ∧
      self'.best = twoActive ∧ self'.best.Adjacent [1, 2] res ∧ true ∈ res.nodeMask := by
  let self : SimpleCoordinateDescent ℚ := ⟨.numNodes, .down, speedObjective, twoActive, 1⟩
  have remembered : self.remembered ⟨[true, false], 1⟩ (1 / 2) speedObjective = twoActive := by
    decide +kernel
  have usable : (self.remembered ⟨[true, false], 1⟩ (1 / 2) speedObjective).Usable [1, 2] := by
    rw [remembered]
    exact ⟨by decide, by decide⟩
  obtain ⟨res, self', returned, best, adjacent, -, stays, -⟩ :=
    next_adjacent usable (by decide) (by decide) (by decide)
  exact ⟨res, self', returned, best.trans remembered, adjacent, stays⟩

/-- The only node is the best configuration, and the measured one has no active node. The assertion
holds, since the node could be activated, but the best configuration has no neighbour. When the only
frequency is listed twice, the result is the best configuration itself. -/
theorem not_next_adjacent :
    (⟨[true], 1⟩ : TunerConfiguration).Usable [1] ∧
      (⟨[false], 1⟩ : TunerConfiguration).hasSpace [1] = some true ∧
      (¬ ∃ fuel result,
        (⟨.numNodes, .down, speedObjective, ⟨[true], 1⟩, 1⟩ : SimpleCoordinateDescent ℚ).next [1]
          ⟨[false], 1⟩ (1 / 2) speedObjective fuel = some result) ∧
      (⟨[true], 1⟩ : TunerConfiguration).hasSpace [1, 1] = some true ∧
      (⟨.frequency, .up, speedObjective, ⟨[true], 1⟩, 1⟩ : SimpleCoordinateDescent ℚ).next [1, 1]
        ⟨[true], 1⟩ 1 speedObjective 1 =
          some (⟨[true], 1⟩, ⟨.frequency, .up, speedObjective, ⟨[true], 1⟩, 1⟩) := by
  refine ⟨⟨by decide, by decide⟩, by decide, ?_, by decide, by decide +kernel⟩
  rintro ⟨fuel, result, returned⟩
  have best : (⟨.numNodes, .down, speedObjective, ⟨[true], 1⟩, 1⟩ :
      SimpleCoordinateDescent ℚ).remembered ⟨[false], 1⟩ (1 / 2) speedObjective = ⟨[true], 1⟩ := by
    decide +kernel
  have alone (dim : Dimension) (dir : Direction) :
      (⟨[true], 1⟩ : TunerConfiguration).neighbour [1] dim dir = some none := by
    cases dim <;> cases dir <;> decide
  rw [next_eq (by decide), best, search_none alone] at returned
  cases returned

end SimpleCoordinateDescent

end AllScale
