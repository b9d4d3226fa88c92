import Mathlib.Logic.Function.Iterate

/-!
# Layered binary trees

A layered tree numbers its nodes from the leaves (layer zero) up to one root. Every node
that is not a leaf has a left and a right child one layer below it. The laws are fields of
the structure, so a value of it is a tree; everything proved here holds in all of them.
`LayeredTree.Above` is the ancestor relation, read from a node towards the root.
-/

namespace TokenTree

/-- One of the two sides on which a node has a child. -/
inductive Side where
  | left
  | right
  deriving DecidableEq, Repr

namespace Side

/-- The opposite side. -/
def other : Side → Side
  | left => right
  | right => left

@[simp] theorem other_left : left.other = right := rfl

@[simp] theorem other_right : right.other = left := rfl

/-- Turning to the opposite side twice changes nothing. -/
@[simp] theorem other_other (side : Side) : side.other.other = side := by
  cases side <;> rfl

/-- No side is its own opposite. -/
@[simp] theorem other_ne (side : Side) : side.other ≠ side := by
  cases side <;> simp

/-- Of two different sides each is the opposite of the other. -/
theorem eq_other_of_ne {first second : Side} (different : first ≠ second) :
    first = second.other := by
  cases first <;> cases second <;> simp_all

end Side

/-- A binary tree whose nodes carry their distance from the leaves. -/
structure LayeredTree (ν : Type) where
  /-- The nodes of the tree among the values of `ν`. -/
  Mem : ν → Prop
  /-- Distance from the leaves. -/
  layer : ν → Nat
  /-- The one node without a parent. -/
  root : ν
  /-- The node one layer above. -/
  parent : ν → ν
  /-- The node one layer below on one side. -/
  child : Side → ν → ν
  /-- The side of its parent on which a node hangs. -/
  side : ν → Side
  /-- The root is a node. -/
  root_mem : Mem root
  /-- Every other node lies below the layer of the root. -/
  layer_lt_root : ∀ {n}, Mem n → n ≠ root → layer n < layer root
  /-- The tree is closed under parents. -/
  parent_mem : ∀ {n}, Mem n → n ≠ root → Mem (parent n)
  /-- A parent lies one layer above. -/
  layer_parent : ∀ {n}, Mem n → n ≠ root → layer (parent n) = layer n + 1
  /-- A node is the child of its parent on its own side. -/
  child_side : ∀ {n}, Mem n → n ≠ root → child (side n) (parent n) = n
  /-- The tree is closed under children of inner nodes. -/
  child_mem : ∀ {n} (s : Side), Mem n → layer n ≠ 0 → Mem (child s n)
  /-- A child lies one layer below. -/
  layer_child : ∀ {n} (s : Side), Mem n → layer n ≠ 0 → layer (child s n) + 1 = layer n
  /-- A node is the parent of its children. -/
  parent_child : ∀ {n} (s : Side), Mem n → layer n ≠ 0 → parent (child s n) = n
  /-- A child hangs on the side it was taken from. -/
  side_child : ∀ {n} (s : Side), Mem n → layer n ≠ 0 → side (child s n) = s

namespace LayeredTree

variable {ν : Type} (T : LayeredTree ν)

/-- No node lies above the root. -/
theorem layer_le_root {n : ν} (member : T.Mem n) : T.layer n ≤ T.layer T.root := by
  by_cases h : n = T.root
  · exact Nat.le_of_eq (congrArg T.layer h)
  · exact Nat.le_of_lt (T.layer_lt_root member h)

/-- Only the root is as high as the root. -/
theorem eq_root_of_le {n : ν} (member : T.Mem n) (high : T.layer T.root ≤ T.layer n) :
    n = T.root := by
  by_contra notRoot
  exact Nat.not_lt.mpr high (T.layer_lt_root member notRoot)

/-- A child is never the root. -/
theorem child_ne_root {n : ν} (s : Side) (member : T.Mem n) (inner : T.layer n ≠ 0) :
    T.child s n ≠ T.root := by
  intro h
  have below := T.layer_child s member inner
  have bound := T.layer_le_root member
  rw [h] at below
  omega

/-- The parent of a node is not a leaf. -/
theorem layer_parent_ne_zero {n : ν} (member : T.Mem n) (notRoot : n ≠ T.root) :
    T.layer (T.parent n) ≠ 0 := by
  rw [T.layer_parent member notRoot]
  omega

/-- The two children of a node differ. -/
theorem child_injective {n : ν} {s t : Side} (member : T.Mem n) (inner : T.layer n ≠ 0)
    (same : T.child s n = T.child t n) : s = t := by
  rw [← T.side_child s member inner, same, T.side_child t member inner]

/-- A node is not among its own children. -/
theorem child_ne_self {n : ν} (s : Side) (member : T.Mem n) (inner : T.layer n ≠ 0) :
    T.child s n ≠ n := by
  intro h
  have below := T.layer_child s member inner
  rw [h] at below
  omega

/-- A node whose parent is `n` is one of the two children of `n`. -/
theorem eq_child_of_parent {m n : ν} (member : T.Mem m) (notRoot : m ≠ T.root)
    (up : T.parent m = n) : m = T.child (T.side m) n := by
  rw [← up]
  exact (T.child_side member notRoot).symm

/-- What holds at the root and passes from every node to its children holds at every node. -/
theorem induct_down {P : ν → Prop} (base : P T.root)
    (step : ∀ n, T.Mem n → n ≠ T.root → P (T.parent n) → P n) : ∀ n, T.Mem n → P n := by
  intro n member
  -- induction on the distance to the root
  induction h : T.layer T.root - T.layer n generalizing n with
  | zero =>
    rw [T.eq_root_of_le member (by omega)]
    exact base
  | succ d ih =>
    by_cases isRoot : n = T.root
    · rw [isRoot]
      exact base
    · refine step n member isRoot (ih _ (T.parent_mem member isRoot) ?_)
      rw [T.layer_parent member isRoot]
      omega

/-! ## Ancestors -/

/-- `Above a m` holds when `a` lies on the way from `m` to the root, `m` itself included. -/
inductive Above : ν → ν → Prop
  | refl (m : ν) : Above m m
  | up {a m : ν} : Above a m → a ≠ T.root → Above (T.parent a) m

namespace Above

variable {T}

/-- Ancestors of ancestors are ancestors. -/
theorem trans {a b m : ν} (upper : T.Above a b) (lower : T.Above b m) : T.Above a m := by
  induction upper with
  | refl => exact lower
  | up _ notRoot ih => exact .up (ih lower) notRoot

/-- Ancestors of nodes are nodes. -/
theorem mem {a m : ν} (above : T.Above a m) (member : T.Mem m) : T.Mem a := by
  induction above with
  | refl => exact member
  | up _ notRoot ih => exact T.parent_mem (ih member) notRoot

/-- An ancestor is reached by as many parent steps as it is layers higher. -/
theorem eq_iterate {a m : ν} (above : T.Above a m) (member : T.Mem m) :
    T.layer m ≤ T.layer a ∧ a = T.parent^[T.layer a - T.layer m] m := by
  induction above with
  | refl => simp
  | @up a m above notRoot ih =>
    obtain ⟨bound, reached⟩ := ih member
    have height := T.layer_parent (above.mem member) notRoot
    refine ⟨by omega, ?_⟩
    have count : T.layer (T.parent a) - T.layer m = (T.layer a - T.layer m) + 1 := by omega
    rw [count, Function.iterate_succ_apply', ← reached]

/-- An ancestor does not lie below. -/
theorem layer_le {a m : ν} (above : T.Above a m) (member : T.Mem m) :
    T.layer m ≤ T.layer a := (above.eq_iterate member).1

/-- A node has one ancestor on each layer. -/
theorem eq_of_layer {a b m : ν} (first : T.Above a m) (second : T.Above b m)
    (member : T.Mem m) (same : T.layer a = T.layer b) : a = b := by
  rw [(first.eq_iterate member).2, (second.eq_iterate member).2, same]

/-- Two nodes that are ancestors of each other are the same. -/
theorem antisymm {a m : ν} (upper : T.Above a m) (lower : T.Above m a) (member : T.Mem a) :
    m = a := by
  have low := upper.layer_le (lower.mem member)
  have high := lower.layer_le member
  exact lower.eq_of_layer (.refl a) member (Nat.le_antisymm low high)

/-- The parent of an ancestor is an ancestor, seen from a child. -/
theorem of_child {n m : ν} {s : Side} (member : T.Mem n) (inner : T.layer n ≠ 0)
    (above : T.Above (T.child s n) m) : T.Above n m := by
  have up := above.up (T.child_ne_root s member inner)
  rwa [T.parent_child s member inner] at up

/-- A node is an ancestor of each of its children. -/
theorem child {n : ν} (s : Side) (member : T.Mem n) (inner : T.layer n ≠ 0) :
    T.Above n (T.child s n) := of_child member inner (.refl _)

/-- Only one child of a node is an ancestor of a given node. -/
theorem not_sibling {n m : ν} {s : Side} (node : T.Mem m) (member : T.Mem n)
    (inner : T.layer n ≠ 0) (above : T.Above (T.child s n) m) :
    ¬ T.Above (T.child s.other n) m := by
  intro sibling
  have first := T.layer_child s member inner
  have second := T.layer_child s.other member inner
  have same := sibling.eq_of_layer above node (by omega)
  exact s.other_ne (T.child_injective member inner same)

/-- What is above the parent of a node is above the node. -/
theorem of_parent {a m : ν} (above : T.Above a (T.parent m)) (notRoot : m ≠ T.root) :
    T.Above a m := above.trans (.up (.refl m) notRoot)

/-- What is above the parent of a node is not the node. -/
theorem ne_of_parent {a m : ν} (above : T.Above a (T.parent m)) (member : T.Mem m)
    (notRoot : m ≠ T.root) : a ≠ m := by
  rintro rfl
  have high := above.layer_le (T.parent_mem member notRoot)
  have raised := T.layer_parent member notRoot
  omega

/-- The root is an ancestor of every node. -/
theorem root {m : ν} (member : T.Mem m) : T.Above T.root m :=
  T.induct_down (P := fun n => T.Above T.root n) (.refl _)
    (fun _ _ notRoot above => above.of_parent notRoot) m member

/-- A proper ancestor lies above the parent. -/
theorem parent_of_ne {a m : ν} (above : T.Above a m) (different : a ≠ m) :
    m ≠ T.root ∧ T.Above a (T.parent m) := by
  induction above with
  | refl => exact absurd rfl different
  | @up a m above notRoot ih =>
    by_cases same : a = m
    · subst same
      exact ⟨notRoot, .refl _⟩
    · exact ⟨(ih same).1, .up (ih same).2 notRoot⟩

/-- A proper ancestor has a child that is an ancestor. -/
theorem child_of_ne {a m : ν} (above : T.Above a m) (member : T.Mem m) (different : a ≠ m) :
    ∃ s, T.Above (T.child s a) m := by
  cases above with
  | refl => exact absurd rfl different
  | @up a m above notRoot =>
    refine ⟨T.side a, ?_⟩
    rwa [T.child_side (above.mem member) notRoot]

/-- A node is not among the nodes below its children. -/
theorem ne_of_child {n m : ν} {s : Side} (above : T.Above (T.child s n) m) (node : T.Mem m)
    (member : T.Mem n) (inner : T.layer n ≠ 0) : n ≠ m := by
  rintro rfl
  have low := above.layer_le node
  have below := T.layer_child s member inner
  omega

/-- An ancestor of a leaf that is not on one side is on the other. -/
theorem child_other {n leaf : ν} {s : Side} (above : T.Above n leaf) (node : T.Mem leaf)
    (low : T.layer leaf = 0) (inner : T.layer n ≠ 0)
    (outside : ¬ T.Above (T.child s n) leaf) : T.Above (T.child s.other n) leaf := by
  obtain ⟨t, onWay⟩ := above.child_of_ne node fun h => inner (h ▸ low)
  have turned : t ≠ s := fun h => outside (h ▸ onWay)
  rwa [Side.eq_other_of_ne turned] at onWay

end Above

/-- The other child of the parent of a node. -/
def sibling (n : ν) : ν := T.child (T.side n).other (T.parent n)

/-- The sibling of a node is a node on the same layer. -/
theorem sibling_spec {n : ν} (member : T.Mem n) (notRoot : n ≠ T.root) :
    T.Mem (T.sibling n) ∧ T.layer (T.sibling n) = T.layer n ∧ T.sibling n ≠ n ∧
      T.parent (T.sibling n) = T.parent n := by
  have high := T.parent_mem member notRoot
  have inner := T.layer_parent_ne_zero member notRoot
  have below := T.layer_child (T.side n).other high inner
  have raised := T.layer_parent member notRoot
  refine ⟨T.child_mem _ high inner, by rw [sibling]; omega, fun same => ?_,
    T.parent_child _ high inner⟩
  rw [sibling] at same
  exact Side.other_ne _
    (T.child_injective high inner (same.trans (T.child_side member notRoot).symm))

end LayeredTree

end TokenTree
