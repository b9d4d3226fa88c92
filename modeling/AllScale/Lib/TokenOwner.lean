import AllScale.Lib.TokenLedger

/-!
# From whom a token is taken

When a leaf takes the token, the claim climbs to the first ancestor that has it on record on the
other side and withdraws it from the leaf to which the records lead from there (`ousted`). In a
routed grid that leaf is the one that holds the token.
-/

namespace TokenTree.LayeredTree

open Function (update)

variable {ν : Type} [DecidableEq ν] (T : LayeredTree ν)

/-- The leaf that a claim withdraws the token from. -/
def evicted : Nat → Grid ν → ν → Side → Option ν
  | h, g, n, s =>
    if (g n).on s.other then T.trail g (T.layer (T.child s.other n)) (T.child s.other n)
    else if n = T.root then none
    else match h with
      | 0 => none
      | h + 1 => evicted h g (T.parent n) (T.side n)

/-- The leaf that loses the token when another leaf takes it. -/
def ousted (g : Grid ν) (leaf : ν) : Option ν :=
  if leaf = T.root then none
  else T.evicted (T.layer T.root - T.layer (T.parent leaf)) g (T.parent leaf) (T.side leaf)

variable {T}

/-! ## Changes elsewhere -/

/-- The records below a node do not depend on cells elsewhere. -/
theorem trail_update {l : Nat} {g : Grid ν} {n m : ν} {c : Cell} (member : T.Mem n)
    (height : T.layer n = l) (outside : ¬ T.Above n m) :
    T.trail (update g m c) l n = T.trail g l n := by
  induction l generalizing n with
  | zero => rfl
  | succ l ih =>
    have inner : T.layer n ≠ 0 := by omega
    have away : n ≠ m := fun h => outside (h ▸ .refl _)
    have below (s : Side) : T.trail (update g m c) l (T.child s n) = T.trail g l (T.child s n) := by
      have lower := T.layer_child s member inner
      exact ih (T.child_mem s member inner) (by omega) fun above =>
        outside (above.of_child member inner)
    simp only [trail, Function.update_of_ne away, below]

/-- From whom a claim withdraws the token does not depend on cells in the subtree it comes
from. -/
theorem evicted_update {h : Nat} {g : Grid ν} {n m : ν} {s : Side} {c : Cell} (node : T.Mem m)
    (member : T.Mem n) (inner : T.layer n ≠ 0) (above : T.Above (T.child s n) m) :
    T.evicted h (update g m c) n s = T.evicted h g n s := by
  induction h generalizing n s with
  | zero =>
    have away := above.ne_of_child node member inner
    simp only [evicted, Function.update_of_ne away, trail_update (T.child_mem _ member inner) rfl
      (above.not_sibling node member inner)]
  | succ h ih =>
    have away := above.ne_of_child node member inner
    have up (notRoot : n ≠ T.root) :
        T.evicted h (update g m c) (T.parent n) (T.side n) =
          T.evicted h g (T.parent n) (T.side n) := by
      refine ih (T.parent_mem member notRoot) (T.layer_parent_ne_zero member notRoot) ?_
      rw [T.child_side member notRoot]
      exact above.of_child member inner
    simp only [evicted, Function.update_of_ne away, trail_update (T.child_mem _ member inner) rfl
      (above.not_sibling node member inner)]
    by_cases isRoot : n = T.root
    · simp only [if_pos isRoot]
    · simp only [if_neg isRoot, up isRoot]

/-! ## The leaf that holds the token -/

/-- A claim that meets a record on the other side withdraws the token from where the records
lead there. -/
theorem evicted_of_taken {h : Nat} {g : Grid ν} {n : ν} {s : Side}
    (taken : (g n).on s.other = true) :
    T.evicted h g n s = T.trail g (T.layer (T.child s.other n)) (T.child s.other n) := by
  cases h <;> rw [evicted, if_pos taken]

/-- In a routed grid a claim withdraws the token from a leaf that holds it. -/
theorem Law.held_of_evicted {g : Grid ν} (law : T.Routed g) {h : Nat} {n leaf : ν} {s : Side}
    (member : T.Mem n) (inner : T.layer n ≠ 0) (found : T.evicted h g n s = some leaf) :
    T.Mem leaf ∧ T.layer leaf = 0 ∧ (g leaf).held = true := by
  have taken {n : ν} {s : Side} (member : T.Mem n) (inner : T.layer n ≠ 0)
      (record : (g n).on s = true)
      (found : T.trail g (T.layer (T.child s n)) (T.child s n) = some leaf) :
      T.Mem leaf ∧ T.layer leaf = 0 ∧ (g leaf).held = true := by
    obtain ⟨low, node, above, between⟩ :=
      recorded_of_trail (T.child_mem s member inner) rfl found
    have recorded : T.recorded g leaf = true := by
      by_cases first : leaf = T.child s n
      · rw [first, T.recorded_child s member inner]
        exact record
      · exact between leaf above (.refl _) first
    have notRoot : leaf ≠ T.root := by
      rintro rfl
      have high := T.layer_le_root member
      omega
    have flags := law.leaf leaf node low
    rw [law.edge leaf node notRoot, Cell.managed, flags.1, flags.2, Bool.or_false,
      Bool.or_false] at recorded
    exact ⟨node, low, recorded⟩
  induction h generalizing n s with
  | zero =>
    rw [evicted] at found
    split at found
    · exact taken member inner ‹_› found
    · simp at found
  | succ h ih =>
    rw [evicted] at found
    split at found
    · exact taken member inner ‹_› found
    · split at found
      · simp at found
      · rename_i notRoot
        exact ih (T.parent_mem member notRoot) (T.layer_parent_ne_zero member notRoot) found

/-- In a routed grid a claim from below withdraws the token from the leaf that holds it. -/
theorem Law.evicted_eq {g : Grid ν} (law : T.Routed g) {owner : ν} (place : T.Mem owner)
    (low : T.layer owner = 0) (held : (g owner).held = true) {h : Nat} {n : ν} {s : Side}
    (member : T.Mem n) (inner : T.layer n ≠ 0) (height : T.layer T.root - T.layer n = h)
    (outside : ¬ T.Above (T.child s n) owner) : T.evicted h g n s = some owner := by
  induction h generalizing n s with
  | zero =>
    have isRoot := T.eq_root_of_le member (by omega)
    have onWay : T.Above n owner := isRoot ▸ .root place
    rw [evicted_of_taken (law.on_other_of_above place low held member inner onWay outside)]
    exact (law.trail_eq place low held
      (onWay.child_other place low inner outside)).2
  | succ h ih =>
    have notRoot : n ≠ T.root := by
      rintro rfl
      omega
    by_cases onWay : T.Above n owner
    · rw [evicted_of_taken (law.on_other_of_above place low held member inner onWay outside)]
      exact (law.trail_eq place low held
        (onWay.child_other place low inner outside)).2
    · -- a record at a node that is not above the owner would lead to the owner
      have free : ¬ (g n).on s.other = true := fun record =>
        onWay (law.above_of_managed place low held n member (Cell.managed_of_on record))
      have raised := T.layer_parent member notRoot
      rw [evicted, if_neg free, if_neg notRoot]
      refine ih (T.parent_mem member notRoot) (T.layer_parent_ne_zero member notRoot) (by omega) ?_
      rwa [T.child_side member notRoot]

/-- In a routed grid a leaf that takes the token takes it from the leaf that holds it. -/
theorem Law.ousted_iff {g : Grid ν} (law : T.Routed g) {leaf owner : ν} (member : T.Mem leaf)
    (low : T.layer leaf = 0) (absent : (g leaf).held = false) :
    T.ousted g leaf = some owner ↔
      T.Mem owner ∧ T.layer owner = 0 ∧ (g owner).held = true := by
  rw [ousted]
  constructor
  · intro found
    split at found
    · simp at found
    · rename_i notRoot
      exact law.held_of_evicted (T.parent_mem member notRoot)
        (T.layer_parent_ne_zero member notRoot) found
  · rintro ⟨place, flat, held⟩
    have different : leaf ≠ owner := by
      rintro rfl
      rw [held] at absent
      exact Bool.noConfusion absent
    have notRoot : leaf ≠ T.root := by
      rintro rfl
      exact different (T.eq_root_of_le place (by omega)).symm
    rw [if_neg notRoot]
    refine law.evicted_eq place flat held (T.parent_mem member notRoot)
      (T.layer_parent_ne_zero member notRoot) rfl fun above => different ?_
    rw [T.child_side member notRoot] at above
    exact above.eq_of_layer (.refl _) place (low.trans flat.symm)

end TokenTree.LayeredTree
