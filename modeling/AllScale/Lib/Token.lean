import Mathlib.Tactic.Common
import AllScale.Lib.LayeredTree

/-!
# One token in a layered tree

Every node of a layered tree keeps a cell about one token: whether the node itself holds it,
and whether it has been recorded as belonging to the left or to the right subtree. A token is
taken at a leaf (`take`): the ancestors record it on the side it was taken from (`claim`) up to
the first ancestor that has it recorded on the other side, and from there the previous trail of
records is removed downwards (`withdraw`). A token that a node holds without a record can be
handed down a path to a node that keeps it (`dispatch`).

All operations preserve that a record of a node about its child and the cell of that child
agree, in one of two senses: `Routed` (the record says exactly whether the child manages the
token) and `Sound` (a recorded token is managed by the child). Both are instances of `Law`.
-/

namespace TokenTree

/-- What one node knows about one token. -/
structure Cell where
  /-- The node itself holds the token. -/
  held : Bool
  /-- The token is on record as belonging to the left subtree. -/
  left : Bool
  /-- The token is on record as belonging to the right subtree. -/
  right : Bool
  deriving DecidableEq, Repr

namespace Cell

/-- The record about one side. -/
def on (c : Cell) : Side → Bool
  | .left => c.left
  | .right => c.right

/-- Replace the record about one side. -/
def setOn (c : Cell) (s : Side) (flag : Bool) : Cell :=
  match s with
  | .left => { c with left := flag }
  | .right => { c with right := flag }

/-- The node holds the token or has it on record on a side. -/
def managed (c : Cell) : Bool := c.held || c.left || c.right

/-- The node holds the token and has it on record on no side. -/
def parked (c : Cell) : Bool := c.held && !c.left && !c.right

@[simp] theorem on_setOn_same (c : Cell) (s : Side) (flag : Bool) :
    (c.setOn s flag).on s = flag := by
  cases s <;> rfl

@[simp] theorem on_setOn_other (c : Cell) (s : Side) (flag : Bool) :
    (c.setOn s flag).on s.other = c.on s.other := by
  cases s <;> rfl

@[simp] theorem on_other_setOn (c : Cell) (s : Side) (flag : Bool) :
    (c.setOn s.other flag).on s = c.on s := by
  cases s <;> rfl

@[simp] theorem held_setOn (c : Cell) (s : Side) (flag : Bool) :
    (c.setOn s flag).held = c.held := by
  cases s <;> rfl

@[simp] theorem on_held (c : Cell) (s : Side) (flag : Bool) :
    ({ c with held := flag } : Cell).on s = c.on s := by
  cases s <;> rfl

/-- The sides of a cell read from any one of them. -/
theorem managed_eq (c : Cell) (s : Side) : c.managed = (c.held || c.on s || c.on s.other) := by
  cases s with
  | left => rfl
  | right => exact Bool.or_right_comm c.held c.left c.right

/-- Of the two records of a cell at most one is set, read from either side. -/
theorem on_other {c : Cell} {s : Side} (disjoint : c.left = true → c.right = false)
    (set : c.on s = true) : c.on s.other = false := by
  cases s with
  | left => exact disjoint set
  | right =>
    cases left : c.left with
    | false => exact left
    | true => exact absurd (disjoint left) (by simpa [on] using set)

/-- A recorded token is managed. -/
theorem managed_of_on {c : Cell} {s : Side} (recorded : c.on s = true) : c.managed = true := by
  rw [managed_eq c s, recorded]
  simp

/-- A recorded token is not parked. -/
theorem parked_of_on {c : Cell} {s : Side} (recorded : c.on s = true) : c.parked = false := by
  cases s <;> simp_all [parked, on]

/-- A parked token is managed. -/
theorem managed_of_parked {c : Cell} (parked : c.parked = true) : c.managed = true := by
  simp only [Cell.parked, Bool.and_eq_true] at parked
  simp only [managed, parked.1.1, Bool.true_or]

end Cell

/-- The cells of all nodes. -/
abbrev Grid (ν : Type) := ν → Cell

namespace LayeredTree

variable {ν : Type} (T : LayeredTree ν)

/-- What the parent of a node has on record about it. -/
def recorded (g : Grid ν) (n : ν) : Bool := (g (T.parent n)).on (T.side n)

/-- The node in which a path from `n` ends. -/
def descend : List Side → ν → ν
  | [], n => n
  | s :: path, n => descend path (T.child s n)

/-- Follow the records from a node down to a leaf, the left record first. -/
def trail (g : Grid ν) : Nat → ν → Option ν
  | 0, n => some n
  | l + 1, n =>
    if (g n).left then trail g l (T.child .left n)
    else if (g n).right then trail g l (T.child .right n)
    else none

/-- Allow a node the token and hand it on to one side, when nothing stands against it. -/
def grant (c : Cell) (s : Side) (allowed : Bool) : Cell × Bool :=
  let held := c.held || allowed
  let handed := !c.on s && held && !c.on s.other
  ({ c.setOn s (c.on s || handed) with held := held }, handed)

section Operations

variable [DecidableEq ν]

open Function (update)

/-- Remove the trail of records below a node, the left record first. -/
def withdraw : Nat → Grid ν → ν → Grid ν
  | 0, g, n => update g n { g n with held := false }
  | l + 1, g, n =>
    if (g n).left then
      withdraw l (update g n { g n with held := false, left := false }) (T.child .left n)
    else if (g n).right then
      withdraw l (update g n { g n with held := false, right := false }) (T.child .right n)
    else g

/-- Record at `n` that the token now belongs to side `s`, and either remove the trail on the
other side or pass the claim on to the parent. -/
def claim : Nat → Grid ν → ν → Side → Grid ν
  | h, g, n, s =>
    if (g n).on s.other then
      T.withdraw (T.layer (T.child s.other n))
        (update g n (((g n).setOn s true).setOn s.other false)) (T.child s.other n)
    else
      let g := update g n { (g n).setOn s true with held := false }
      if n = T.root then g
      else match h with
        | 0 => g
        | h + 1 => claim h g (T.parent n) (T.side n)

/-- Take the token at a leaf. -/
def take (g : Grid ν) (leaf : ν) : Grid ν :=
  if (g leaf).held then g
  else
    let g := update g leaf { g leaf with held := true }
    if leaf = T.root then g
    else T.claim (T.layer T.root - T.layer (T.parent leaf)) g (T.parent leaf) (T.side leaf)

/-- Hand an allowance down a path; what arrives at the last node is returned. -/
def passDown : List Side → Grid ν → ν → Bool → Grid ν × Bool
  | [], g, _, allowed => (g, allowed)
  | s :: path, g, n, allowed =>
    let result := grant (g n) s allowed
    passDown path (update g n result.1) (T.child s n) result.2

/-- A node keeps an allowance. -/
def keep (g : Grid ν) (n : ν) (allowed : Bool) : Grid ν :=
  update g n { g n with held := (g n).held || allowed }

/-- Hand an allowance down a path to a node that keeps it and, when that node is a leaf, takes
the token. -/
def dispatch (path : List Side) (g : Grid ν) (n : ν) (allowed : Bool) : Grid ν :=
  let result := T.passDown path g n allowed
  let g := keep result.1 (T.descend path n) result.2
  if T.layer (T.descend path n) = 0 then T.take g (T.descend path n) else g

/-- Replacing the cell of a node changes the records about its children only. -/
theorem recorded_update (g : Grid ν) (n m : ν) (c : Cell) :
    T.recorded (update g n c) m =
      if T.parent m = n then c.on (T.side m) else T.recorded g m := by
  by_cases h : T.parent m = n <;> simp [recorded, h]

end Operations

/-! ## Records and updates -/

/-- The record about a child is the record of its parent on that side. -/
theorem recorded_child {g : Grid ν} {n : ν} (s : Side) (member : T.Mem n)
    (inner : T.layer n ≠ 0) : T.recorded g (T.child s n) = (g n).on s := by
  simp only [recorded, T.parent_child s member inner, T.side_child s member inner]

/-- A node of the tree is not its own parent. -/
theorem parent_ne_self {n : ν} (member : T.Mem n) (notRoot : n ≠ T.root) : T.parent n ≠ n := by
  intro h
  have height := T.layer_parent member notRoot
  rw [h] at height
  omega

/-! ## The laws -/

/-- What a grid keeps and how far the record about a node follows its cell: `R recorded managed`
for every node but the root. -/
structure Law (R : Bool → Bool → Prop) (g : Grid ν) : Prop where
  /-- No token is on record on both sides. -/
  disjoint : ∀ n, T.Mem n → (g n).left = true → (g n).right = false
  /-- A leaf has no records. -/
  leaf : ∀ n, T.Mem n → T.layer n = 0 → (g n).left = false ∧ (g n).right = false
  /-- Records and cells agree. -/
  edge : ∀ n, T.Mem n → n ≠ T.root → R (T.recorded g n) (g n).managed

/-- The law of all nodes except what the parent of `hole` has on record about it. -/
structure LawBut (R : Bool → Bool → Prop) (hole : ν) (g : Grid ν) : Prop where
  /-- No token is on record on both sides. -/
  disjoint : ∀ n, T.Mem n → (g n).left = true → (g n).right = false
  /-- A leaf has no records. -/
  leaf : ∀ n, T.Mem n → T.layer n = 0 → (g n).left = false ∧ (g n).right = false
  /-- Records and cells agree away from the hole. -/
  edge : ∀ n, T.Mem n → n ≠ T.root → n ≠ hole → R (T.recorded g n) (g n).managed

/-- The record about a node says exactly whether the node manages the token. -/
abbrev Routed (g : Grid ν) : Prop := T.Law (fun record managed => record = managed) g

/-- A recorded token is managed by the node it is recorded for. -/
abbrev Sound (g : Grid ν) : Prop := T.Law (fun record managed => record = true → managed = true) g

variable {T} {R : Bool → Bool → Prop}

/-- A law has no exception, in particular not at a given node. -/
theorem Law.but {g : Grid ν} (law : T.Law R g) (hole : ν) : T.LawBut R hole g :=
  ⟨law.disjoint, law.leaf, fun n member notRoot _ => law.edge n member notRoot⟩

/-- Filling the hole gives the law. -/
theorem LawBut.fill {g : Grid ν} {hole : ν} (law : T.LawBut R hole g)
    (edge : hole ≠ T.root → R (T.recorded g hole) (g hole).managed) : T.Law R g := by
  refine ⟨law.disjoint, law.leaf, fun n member notRoot => ?_⟩
  by_cases h : n = hole
  · subst h
    exact edge notRoot
  · exact law.edge n member notRoot h

/-- Of the two records of a node at most one is set, read from either side. -/
theorem LawBut.on_other {g : Grid ν} {hole n : ν} {s : Side} (law : T.LawBut R hole g)
    (member : T.Mem n) (set : (g n).on s = true) : (g n).on s.other = false :=
  Cell.on_other (law.disjoint n member) set

end LayeredTree

end TokenTree
