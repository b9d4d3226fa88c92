import AllScale.Lib.LayeredTree

/-!
# Steering down a layered tree

A plan gives a decision for every finite path: turn to one side, or stay. Read along a path the
decisions lead from the root of a layered tree downwards (`target`). A node need not know where
it stands on that way: from the path alone it can look for the longest prefix that has led to it
and follow the decision after that prefix (`steer`). From every node that lies on the way of a
path, following `steer` ends where the path leads.

A path is a list of sides, the latest first, so the prefixes of a path are the suffixes of the
list.
-/

namespace TokenTree.LayeredTree

variable {ν : Type} (T : LayeredTree ν)

/-- Turn to a child, or stay; a leaf has no child to turn to. -/
def turn (n : ν) : Option Side → ν
  | none => n
  | some s => if T.layer n = 0 then n else T.child s n

/-- Where the decisions before the last one of a path have led. -/
def spot (plan : List Side → Option Side) : List Side → ν
  | [] => T.root
  | _ :: path => T.turn (spot plan path) (plan path)

/-- Where all decisions of a path have led. -/
def target (plan : List Side → Option Side) (path : List Side) : ν :=
  T.turn (T.spot plan path) (plan path)

/-- The decision after the longest prefix of a path that has led to a node. -/
def steer [DecidableEq ν] (plan : List Side → Option Side) (n : ν) : List Side → Option Side
  | [] => if T.root = n then plan [] else none
  | s :: path => if T.target plan path = n then plan (s :: path) else steer plan n path

/-- A node lies on the way of a path. -/
def Visits (plan : List Side → Option Side) (path : List Side) (n : ν) : Prop :=
  n = T.root ∨ ∃ earlier, earlier <:+ path ∧ T.target plan earlier = n

/-! ## Turning -/

variable {T} {plan : List Side → Option Side} {path earlier : List Side} {n : ν}

/-- Turning leads to a node of the tree. -/
theorem turn_mem (member : T.Mem n) (decision : Option Side) : T.Mem (T.turn n decision) := by
  cases decision with
  | none => exact member
  | some s =>
    by_cases low : T.layer n = 0
    · rw [turn, if_pos low]
      exact member
    · rw [turn, if_neg low]
      exact T.child_mem s member low

/-- Turning leads downwards. -/
theorem Above.turn (member : T.Mem n) (decision : Option Side) :
    T.Above n (T.turn n decision) := by
  cases decision with
  | none => exact .refl n
  | some s =>
    by_cases low : T.layer n = 0
    · rw [LayeredTree.turn, if_pos low]
      exact .refl n
    · rw [LayeredTree.turn, if_neg low]
      exact .child s member low

/-- Turning to a side at an inner node leads one layer down. -/
theorem turn_of_inner (inner : T.layer n ≠ 0) (s : Side) :
    T.turn n (some s) = T.child s n := if_neg inner

/-- From a leaf every decision leads to the leaf itself. -/
theorem turn_of_leaf (low : T.layer n = 0) (decision : Option Side) : T.turn n decision = n := by
  cases decision with
  | none => rfl
  | some s => exact if_pos low

/-- A node that is left has been turned away from to a side. -/
theorem exists_side_of_turn_ne {decision : Option Side} (left : T.turn n decision ≠ n) :
    ∃ s, decision = some s ∧ T.layer n ≠ 0 := by
  cases decision with
  | none => exact absurd rfl left
  | some s =>
    refine ⟨s, rfl, fun low => ?_⟩
    exact left (turn_of_leaf low _)

/-! ## The way of a path -/

/-- The decisions before the last one lead to the target of the path before. -/
@[simp] theorem spot_cons (s : Side) (path : List Side) :
    T.spot plan (s :: path) = T.target plan path := rfl

/-- Paths lead to nodes of the tree. -/
theorem spot_mem (plan : List Side → Option Side) (path : List Side) :
    T.Mem (T.spot plan path) := by
  induction path with
  | nil => exact T.root_mem
  | cons s path ih => exact turn_mem ih (plan path)

/-- The target of a path is a node of the tree. -/
theorem target_mem (plan : List Side → Option Side) (path : List Side) :
    T.Mem (T.target plan path) := turn_mem (spot_mem plan path) (plan path)

/-- Longer paths lead further down. -/
theorem target_above (prior : earlier <:+ path) :
    T.Above (T.target plan earlier) (T.target plan path) := by
  induction path with
  | nil =>
    rw [List.suffix_nil.mp prior]
    exact .refl _
  | cons s path ih =>
    rcases List.suffix_cons_iff.mp prior with same | shorter
    · rw [same]
      exact .refl _
    · apply (ih shorter).trans
      exact .turn (target_mem plan path) (plan (s :: path))

/-- A path leads from the root to its target. -/
theorem layer_target_le (plan : List Side → Option Side) (path : List Side) :
    T.layer (T.target plan path) ≤ T.layer T.root :=
  T.layer_le_root (target_mem plan path)

/-- What a path visits is visited by every longer path. -/
theorem Visits.mono (visits : T.Visits plan earlier n) (prior : earlier <:+ path) :
    T.Visits plan path n := by
  rcases visits with root | visits
  · exact Or.inl root
  · obtain ⟨first, before, reached⟩ := visits
    exact Or.inr ⟨first, before.trans prior, reached⟩

/-- A path visits its target. -/
theorem visits_target (plan : List Side → Option Side) (path : List Side) :
    T.Visits plan path (T.target plan path) := Or.inr ⟨path, List.suffix_rfl, rfl⟩

/-- A path visits nodes of the tree. -/
theorem Visits.mem (visits : T.Visits plan path n) : T.Mem n := by
  rcases visits with root | visits
  · rw [root]
    exact T.root_mem
  · obtain ⟨first, -, reached⟩ := visits
    rw [← reached]
    exact target_mem plan first

/-! ## Steering -/

variable [DecidableEq ν]

/-- A node below the target of a path does not steer it. -/
theorem steer_of_below (below : T.layer n < T.layer (T.target plan path)) :
    T.steer plan n path = none := by
  induction path with
  | nil =>
    have bound := layer_target_le (T := T) plan []
    apply if_neg
    intro root
    rw [root] at bound
    omega
  | cons s path ih =>
    have passed : T.Above (T.target plan path) (T.target plan (s :: path)) :=
      target_above (List.suffix_cons s path)
    have down := passed.layer_le (target_mem plan (s :: path))
    unfold steer
    rw [if_neg]
    · apply ih
      omega
    · intro here
      rw [here] at down
      omega

/-- At its target a path stays. -/
theorem steer_target (inner : T.layer (T.target plan path) ≠ 0) :
    T.steer plan (T.target plan path) path = none := by
  -- a decision that leads to the node it is taken at is the decision to stay
  have stays {m : ν} {decision : Option Side} (member : T.Mem m) (high : T.layer m ≠ 0)
      (same : m = T.turn m decision) : decision = none := by
    cases decision with
    | none => rfl
    | some s =>
      rw [turn_of_inner high] at same
      exact absurd same.symm (T.child_ne_self s member high)
  cases path with
  | nil =>
    unfold steer
    split
    · rename_i root
      apply stays T.root_mem (root ▸ inner)
      exact root
    · rfl
  | cons s path =>
    unfold steer
    split
    · rename_i here
      apply stays (target_mem plan path) (here ▸ inner)
      exact here
    · rename_i moved
      apply steer_of_below
      have down : T.Above (T.target plan path) (T.target plan (s :: path)) :=
        target_above (List.suffix_cons s path)
      have bound := down.layer_le (target_mem plan (s :: path))
      have apart : T.layer (T.target plan path) ≠ T.layer (T.target plan (s :: path)) := fun same =>
        moved (down.eq_of_layer (.refl _) (target_mem plan (s :: path)) same)
      omega

/-- A visited node other than the target steers to a visited node below it. -/
theorem steer_visits (visits : T.Visits plan path n) (onWay : n ≠ T.target plan path) :
    ∃ s, T.layer n ≠ 0 ∧ T.steer plan n path = some s ∧ T.Visits plan path (T.child s n) := by
  induction path with
  | nil =>
    have root : n = T.root := by
      rcases visits with root | visits
      · exact root
      · obtain ⟨first, prior, reached⟩ := visits
        rw [List.suffix_nil.mp prior] at reached
        exact absurd reached.symm onWay
    subst root
    obtain ⟨s, decision, inner⟩ := exists_side_of_turn_ne (T := T) (n := T.root) onWay.symm
    refine ⟨s, inner, ?_, ?_⟩
    · unfold steer
      rw [if_pos rfl, decision]
    · apply Or.inr
      refine ⟨[], List.suffix_rfl, ?_⟩
      show T.turn T.root (plan []) = T.child s T.root
      rw [decision, turn_of_inner inner]
  | cons t path ih =>
    by_cases here : T.target plan path = n
    · subst here
      obtain ⟨s, decision, inner⟩ :=
        exists_side_of_turn_ne (T := T) (n := T.target plan path) onWay.symm
      refine ⟨s, inner, ?_, ?_⟩
      · unfold steer
        rw [if_pos rfl, decision]
      · apply Or.inr
        refine ⟨t :: path, List.suffix_rfl, ?_⟩
        show T.turn (T.target plan path) (plan (t :: path)) = T.child s (T.target plan path)
        rw [decision, turn_of_inner inner]
    · have before : T.Visits plan path n := by
        rcases visits with root | visits
        · exact Or.inl root
        · obtain ⟨first, prior, reached⟩ := visits
          rcases List.suffix_cons_iff.mp prior with same | shorter
          · rw [same] at reached
            exact absurd reached.symm onWay
          · exact Or.inr ⟨first, shorter, reached⟩
      obtain ⟨s, inner, decision, next⟩ := ih before fun same => here same.symm
      refine ⟨s, inner, ?_, next.mono (List.suffix_cons t path)⟩
      unfold steer
      rwa [if_neg here]

/-- What holds at the target of a path, and of a visited node when it holds of the one it steers
to, holds of every visited node. -/
theorem Visits.induct {P : ν → Prop} (stop : P (T.target plan path))
    (down : ∀ n s, T.Visits plan path n → n ≠ T.target plan path → T.layer n ≠ 0 →
      T.steer plan n path = some s → T.Visits plan path (T.child s n) → P (T.child s n) → P n)
    (visits : T.Visits plan path n) : P n := by
  -- induction on the layer, which falls with every turn
  induction height : T.layer n using Nat.strongRecOn generalizing n with
  | _ l ih =>
    by_cases arrived : n = T.target plan path
    · rw [arrived]
      exact stop
    · obtain ⟨s, inner, decision, next⟩ := steer_visits visits arrived
      have below := T.layer_child s visits.mem inner
      apply down n s visits arrived inner decision next
      exact ih (T.layer (T.child s n)) (by omega) next rfl

end TokenTree.LayeredTree
