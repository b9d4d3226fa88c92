import AllScale.Lib.Steering
import AllScale.SchedulePolicy.DecisionTree

/-!
# Encoding a mapping

`fillTree` turns a mapping of the tasks of one level to ranks into the decisions of a tree: at
every path it compares the first and the last rank of the block of tasks below the path with the
centre of the ranks that are still possible, and goes on with the halves of the block. A `Block`
is what it knows at a path, and the decisions of all blocks make up a plan for the overlay. The
tree that is filled has the decision of the plan at every path that has not led to a leaf yet.
-/

namespace AllScale

open TokenTree HierarchyAddress

/-- `fillTree`; `fuel` bounds the nesting of its calls. A `none` is a call that is nested deeper, a
rank read from outside of the mapping or a decision set outside of the tree. -/
def fillTree (mapping : List Nat) (maxDepth : Nat) : (fuel : Nat) → DecisionTree → TaskPath →
    (depth rangeMin rangeMax min max : Nat) → Option DecisionTree
  | 0, _, _, _, _, _, _, _ => none
  | fuel + 1, tree, p, depth, rangeMin, rangeMax, min, max =>
    if depth ≥ maxDepth then some tree
    else do
      let center := rangeMin + (rangeMax - rangeMin) / 2
      let curMin ← mapping[min]?
      let curMax ← (if min = max then some curMin else mapping[max - 1]?)
      let (decision, depth, nestedRangeMin, nestedRangeMax) :=
        if curMax < center then (.left, depth + 1, rangeMin, center)
        else if center ≤ curMin then (.right, depth + 1, center, rangeMax)
        else (ScheduleDecision.stay, depth, rangeMin, rangeMax)
      let tree ← tree.set p decision
      if depth ≥ maxDepth ∧ min + 1 ≥ max then some tree
      else do
        let mid := min + (max - min) / 2
        let tree ← fillTree mapping maxDepth fuel tree p.getLeftChildPath depth
          nestedRangeMin nestedRangeMax min mid
        fillTree mapping maxDepth fuel tree p.getRightChildPath depth
          nestedRangeMin nestedRangeMax mid max

/-- `toDecisionTree`, with its check of the size of the mapping. The nesting of `fillTree` is
bounded by the number of tasks and of layers. -/
def toDecisionTree (numNodes : Nat) (map : List Nat) : Option DecisionTree := do
  let log2 := ceilLog2 map.length
  if 1 <<< log2 = map.length then
    let res ← DecisionTree.create (1 <<< (2 * log2))
    fillTree map (ceilLog2 numNodes) (ceilLog2 numNodes + map.length + 1) res .root 0 0 numNodes
      0 map.length
  else none

/-! ## Blocks -/

/-- What is known at a path: the node that the decisions before have led to and the tasks below
the path. -/
structure Block where
  /-- The node on which the task of the path is scheduled. -/
  addr : HierarchyAddress
  /-- The first task below the path. -/
  min : Nat
  /-- The task behind the last one below the path. -/
  max : Nat

namespace Block

/-- The rank of the first task of a block. -/
def curMin (mapping : List Nat) (b : Block) : Nat := mapping.getD b.min 0

/-- The rank of the last task of a block, or of the first when there is none. -/
def curMax (mapping : List Nat) (b : Block) : Nat :=
  if b.min = b.max then b.curMin mapping else mapping.getD (b.max - 1) 0

/-- The first rank of the right half of the ranks below the node. -/
def center (b : Block) : Nat := b.addr.rank + 2 ^ b.addr.layer / 2

/-- The turn that is taken at a block. -/
def choose (mapping : List Nat) (b : Block) : Option Side :=
  if b.curMax mapping < b.center then some .left
  else if b.center ≤ b.curMin mapping then some .right
  else none

/-- Where the tasks of a block are split. -/
def mid (b : Block) : Nat := b.min + (b.max - b.min) / 2

/-- One half of a block, at the node to which the turn leads. -/
def half (mapping : List Nat) (b : Block) (s : Side) : Block :=
  let addr := (overlay 0).turn b.addr (b.choose mapping)
  match s with
  | .left => ⟨addr, b.min, b.mid⟩
  | .right => ⟨addr, b.mid, b.max⟩

/-- The block at a path that starts at a block. -/
def follow (mapping : List Nat) (b : Block) : TaskPath → Block
  | [] => b
  | s :: path => (b.follow mapping path).half mapping s

/-- The block of all tasks at the root of a network of a height. -/
def whole (height tasks : Nat) : Block := ⟨⟨0, height⟩, 0, tasks⟩

/-- A path whose first turn leads to a half follows that half. -/
theorem follow_append (mapping : List Nat) (b : Block) (path : TaskPath) (s : Side) :
    b.follow mapping (path ++ [s]) = (b.half mapping s).follow mapping path := by
  induction path with
  | nil => rfl
  | cons t path ih =>
    show ((b.follow mapping (path ++ [s])).half mapping t) = _
    rw [ih]
    rfl

/-- Both halves are at the node to which the turn leads. -/
@[simp] theorem addr_half (mapping : List Nat) (b : Block) (s : Side) (k : Nat) :
    (b.half mapping s).addr = (overlay k).turn b.addr (b.choose mapping) := by
  cases s <;> rfl

/-- A turn at a block that is not a leaf leads one layer down, and no turn leads nowhere. -/
theorem layer_half (mapping : List Nat) {b : Block} (s : Side) (inner : b.addr.layer ≠ 0) :
    (b.half mapping s).addr.layer =
      if b.choose mapping = none then b.addr.layer else b.addr.layer - 1 := by
  rw [addr_half mapping b s 0]
  cases b.choose mapping with
  | none => rfl
  | some t =>
    rw [LayeredTree.turn_of_inner inner, if_neg (by simp)]
    cases t <;> rfl

/-- Below a leaf there are only leaves. -/
theorem layer_follow_of_leaf (mapping : List Nat) {b : Block} (low : b.addr.layer = 0)
    (path : TaskPath) : (b.follow mapping path).addr.layer = 0 := by
  induction path with
  | nil => exact low
  | cons s path ih =>
    show ((b.follow mapping path).half mapping s).addr.layer = 0
    rw [addr_half mapping _ s 0, LayeredTree.turn_of_leaf ih]
    exact ih

/-- A block at a path of some length, in a mapping of `2 ^ g` tasks: it has the size that belongs
to the length, and a path that is longer than `g` has turned once for every further step. -/
structure Fits (g height length : Nat) (b : Block) : Prop where
  /-- The first task is a task. -/
  min_lt : b.min < 2 ^ g
  /-- The tasks are in order. -/
  min_le : b.min ≤ b.max
  /-- The last task is a task. -/
  max_le : b.max ≤ 2 ^ g
  /-- Down to single tasks every step halves the block. -/
  size : length ≤ g → b.max = b.min + 2 ^ (g - length)
  /-- Below single tasks a block has at most one task. -/
  single : g ≤ length → b.max ≤ b.min + 1
  /-- The node lies in the network. -/
  layer_le : b.addr.layer ≤ height
  /-- Below single tasks every step leads one layer down. -/
  deep : b.addr.layer ≠ 0 → length + b.addr.layer ≤ g + height

/-- The block of all tasks fits. -/
theorem fits_whole (g height : Nat) : (whole height (2 ^ g)).Fits g height 0 := by
  refine ⟨Nat.two_pow_pos g, Nat.zero_le _, Nat.le_refl _, fun _ => ?_, fun empty => ?_,
    Nat.le_refl _, fun _ => ?_⟩
  · show 2 ^ g = 0 + 2 ^ (g - 0)
    rw [Nat.zero_add, Nat.sub_zero]
  · obtain rfl : g = 0 := by omega
    exact Nat.le_refl _
  · show 0 + height ≤ g + height
    omega

/-- A block at which no turn is taken has two tasks or more. -/
theorem two_le_of_stay {mapping : List Nat} {b : Block} (ordered : b.min ≤ b.max)
    (stay : b.choose mapping = none) : b.min + 2 ≤ b.max := by
  unfold choose at stay
  by_contra small
  have single : b.curMax mapping = b.curMin mapping := by
    unfold curMax
    split
    · rfl
    · unfold curMin
      congr 1
      omega
  rw [single] at stay
  split at stay
  · exact absurd stay (by simp)
  · rename_i high
    rw [if_pos (Nat.not_lt.mp high)] at stay
    exact absurd stay (by simp)

/-- No half is further up than its block. -/
theorem layer_half_le (mapping : List Nat) (b : Block) (s : Side) :
    (b.half mapping s).addr.layer ≤ b.addr.layer := by
  by_cases low : b.addr.layer = 0
  · rw [addr_half mapping b s 0, LayeredTree.turn_of_leaf low]
  · rw [layer_half mapping s low]
    split <;> omega

/-- Above the last level a block is cut into halves of one size. -/
theorem Fits.mid_eq {g height length : Nat} {b : Block} (fits : b.Fits g height length)
    (short : length + 1 ≤ g) :
    b.mid = b.min + 2 ^ (g - (length + 1)) ∧ b.max = b.mid + 2 ^ (g - (length + 1)) := by
  have whole := fits.size (by omega)
  have double : 2 ^ (g - length) = 2 * 2 ^ (g - (length + 1)) := by
    rw [← Nat.pow_succ']
    congr 1
    omega
  unfold mid
  omega

/-- From the last level on a half has one task at most. -/
theorem Fits.mid_le {g height length : Nat} {b : Block} (fits : b.Fits g height length)
    (long : g ≤ length + 1) : b.mid ≤ b.min + 1 ∧ b.max ≤ b.mid + 1 := by
  by_cases short : length + 1 ≤ g
  · obtain ⟨first, second⟩ := fits.mid_eq short
    have last : g - (length + 1) = 0 := by omega
    rw [last, Nat.pow_zero] at first second
    omega
  · have few := fits.single (by omega)
    unfold mid
    omega

/-- A single task is never a reason to stay. -/
theorem Fits.choose_ne_none {mapping : List Nat} {g height length : Nat} {b : Block}
    (fits : b.Fits g height length) (long : g ≤ length) : b.choose mapping ≠ none := by
  intro stay
  have many := two_le_of_stay fits.min_le stay
  have few := fits.single long
  omega

/-- Halves fit. -/
theorem Fits.half {mapping : List Nat} {g height length : Nat} {b : Block}
    (fits : b.Fits g height length) (s : Side) :
    (b.half mapping s).Fits g height (length + 1) := by
  have ordered := fits.min_le
  have last := fits.max_le
  have first := fits.min_lt
  have middle : b.min ≤ b.mid ∧ b.mid ≤ b.max ∧ b.mid < 2 ^ g := by
    unfold mid
    omega
  have layers := layer_half_le mapping b s
  refine ⟨?_, ?_, ?_, fun short => ?_, fun long => ?_, Nat.le_trans layers fits.layer_le,
    fun inner => ?_⟩
  · cases s with
    | left => exact first
    | right => exact middle.2.2
  · cases s with
    | left => exact middle.1
    | right => exact middle.2.1
  · cases s with
    | left => exact Nat.le_trans middle.2.1 last
    | right => exact last
  · cases s with
    | left => exact (fits.mid_eq short).1
    | right => exact (fits.mid_eq short).2
  · cases s with
    | left => exact (fits.mid_le long).1
    | right => exact (fits.mid_le long).2
  · have high : b.addr.layer ≠ 0 := by omega
    have bound := fits.deep high
    by_cases short : length < g
    · have top := fits.layer_le
      omega
    · rw [layer_half mapping s high, if_neg (fits.choose_ne_none (by omega))]
      omega

/-- A turn leaves a layer behind, and staying halves two tasks or more. -/
theorem Fits.half_lt {g height length : Nat} {b : Block} (fits : b.Fits g height length)
    (mapping : List Nat) (low : b.addr.layer ≠ 0) (s : Side) :
    (b.half mapping s).addr.layer + ((b.half mapping s).max - (b.half mapping s).min) <
      b.addr.layer + (b.max - b.min) := by
  have ordered := fits.min_le
  have middle : b.mid = b.min + (b.max - b.min) / 2 := rfl
  have sizes : (b.half mapping s).max - (b.half mapping s).min ≤ b.max - b.min ∧
      (b.min + 2 ≤ b.max →
        (b.half mapping s).max - (b.half mapping s).min < b.max - b.min) := by
    cases s
    · show b.mid - b.min ≤ _ ∧ (_ → b.mid - b.min < _)
      omega
    · show b.max - b.mid ≤ _ ∧ (_ → b.max - b.mid < _)
      omega
  rw [layer_half mapping s low]
  split
  · rename_i stay
    have many := two_le_of_stay ordered stay
    have shrunk := sizes.2 many
    omega
  · omega

/-- Every path leads to a block that fits. -/
theorem Fits.follow {mapping : List Nat} {g height length : Nat} {b : Block}
    (fits : b.Fits g height length) (path : TaskPath) :
    (b.follow mapping path).Fits g height (length + path.length) := by
  induction path with
  | nil => exact fits
  | cons s path ih => exact ih.half s

end Block

/-! ## Filling a tree -/

/-- What filling a tree below a path does to it. -/
structure Filled (mapping : List Nat) (path : TaskPath) (b : Block) (tree tree' : DecisionTree) :
    Prop where
  /-- The tree keeps its size. -/
  size : tree'.encoded.length = tree.encoded.length
  /-- Decisions elsewhere are left alone. -/
  others : ∀ other, ¬ path <:+ other → tree'.get other = tree.get other
  /-- Below the path every decision is the turn that is taken at the block. -/
  below : ∀ rest, (b.follow mapping rest).addr.layer ≠ 0 →
    tree'.get (rest ++ path) = some (.ofTurn ((b.follow mapping rest).choose mapping))

namespace Filled

variable {mapping : List Nat} {path : TaskPath} {b : Block} {tree : DecisionTree}

/-- Below a leaf there is nothing to decide. -/
theorem of_leaf (low : b.addr.layer = 0) : Filled mapping path b tree tree :=
  ⟨rfl, fun _ _ => rfl, fun rest inner =>
    absurd (Block.layer_follow_of_leaf mapping low rest) inner⟩

/-- Two children of one path start no common path. -/
theorem not_both {s t : Side} (different : s ≠ t) (rest : TaskPath) :
    ¬ (s :: path) <:+ rest ++ t :: path := by
  intro prior
  have same := (List.suffix_of_suffix_length_le prior (List.suffix_append rest (t :: path))
    (Nat.le_refl _)).eq_of_length rfl
  exact different (List.cons.inj same).1

/-- A path does not start with one of its children. -/
theorem not_child (s : Side) : ¬ (s :: path) <:+ path := fun prior =>
  absurd prior.length_le (Nat.not_succ_le_self _)

/-- Setting the decision of a path and filling the tree below both children. -/
theorem of_children {tree' left right : DecisionTree}
    (size : tree'.encoded.length = tree.encoded.length)
    (here : tree'.get path = some (.ofTurn (b.choose mapping)))
    (others : ∀ other, other ≠ path → tree'.get other = tree.get other)
    (first : Filled mapping (.left :: path) (b.half mapping .left) tree' left)
    (second : Filled mapping (.right :: path) (b.half mapping .right) left right) :
    Filled mapping path b tree right := by
  refine ⟨second.size.trans (first.size.trans size), fun other apart => ?_, fun rest inner => ?_⟩
  · have beyond (s : Side) : ¬ (s :: path) <:+ other := fun prior =>
      apart ((List.suffix_cons s path).trans prior)
    have different : other ≠ path := fun same => apart (same ▸ List.suffix_rfl)
    rw [second.others other (beyond .right), first.others other (beyond .left)]
    exact others other different
  · induction rest using List.reverseRecOn with
    | nil =>
      show right.get path = _
      rw [second.others path (not_child .right), first.others path (not_child .left)]
      exact here
    | append_singleton rest s _ =>
      rw [Block.follow_append] at inner ⊢
      rw [List.append_assoc, List.singleton_append]
      cases s with
      | left =>
        rw [second.others _ (not_both (by decide) rest)]
        exact first.below rest inner
      | right => exact second.below rest inner

end Filled

/-- The ranks that `fillTree` reads at a block that fits. -/
theorem Block.Fits.reads {mapping : List Nat} {g height length : Nat} {b : Block}
    (fits : b.Fits g height length) (tasks : mapping.length = 2 ^ g) :
    mapping[b.min]? = some (b.curMin mapping) ∧
      (if b.min = b.max then some (b.curMin mapping) else mapping[b.max - 1]?) =
        some (b.curMax mapping) := by
  have first : b.min < mapping.length := by
    rw [tasks]
    exact fits.min_lt
  constructor
  · unfold curMin
    rw [List.getD_eq_getElem?_getD, List.getElem?_eq_getElem first, Option.getD_some]
  · unfold curMax
    split
    · rfl
    · have last : b.max - 1 < mapping.length := by
        have ordered := fits.min_le
        have bound := fits.max_le
        omega
      rw [List.getD_eq_getElem?_getD, List.getElem?_eq_getElem last, Option.getD_some]

/-- What `fillTree` goes on with is the range of ranks below the node to which the turn leads. -/
theorem Block.nested (mapping : List Nat) {b : Block} {height : Nat}
    (layers : b.addr.layer ≤ height) (inner : b.addr.layer ≠ 0) :
    (if b.curMax mapping < b.center then
        (ScheduleDecision.left, height - b.addr.layer + 1, b.addr.rank, b.center)
      else if b.center ≤ b.curMin mapping then
        (.right, height - b.addr.layer + 1, b.center, b.addr.rank + 2 ^ b.addr.layer)
      else (.stay, height - b.addr.layer, b.addr.rank, b.addr.rank + 2 ^ b.addr.layer)) =
      let addr := (overlay 0).turn b.addr (b.choose mapping)
      (.ofTurn (b.choose mapping), height - addr.layer, addr.rank, addr.rank + 2 ^ addr.layer) := by
  have power : 2 ^ b.addr.layer = 2 ^ (b.addr.layer - 1) + 2 ^ (b.addr.layer - 1) := by
    rw [← Nat.two_mul, ← Nat.pow_succ']
    congr 1
    omega
  have center : b.center = b.addr.rank + 2 ^ (b.addr.layer - 1) := by
    unfold Block.center
    omega
  have lower : height - b.addr.layer + 1 = height - (b.addr.layer - 1) := by omega
  unfold choose
  split
  · rw [LayeredTree.turn_of_inner inner, center, lower]
    rfl
  · split
    · rw [LayeredTree.turn_of_inner inner]
      show _ = (ScheduleDecision.right, height - (b.addr.layer - 1),
        b.addr.rank + 1 <<< (b.addr.layer - 1),
        b.addr.rank + 1 <<< (b.addr.layer - 1) + 2 ^ (b.addr.layer - 1))
      rw [Nat.shiftLeft_eq, Nat.one_mul, center, lower, power, Nat.add_assoc]
    · rfl

/-- One call of `fillTree` above a leaf writes the decision of its block and fills the halves. -/
theorem fillTree_inner {mapping : List Nat} {g height fuel : Nat} {tree tree' : DecisionTree}
    {path : TaskPath} {b : Block} (tasks : mapping.length = 2 ^ g)
    (fits : b.Fits g height path.length) (low : b.addr.layer ≠ 0)
    (set : tree.set path (.ofTurn (b.choose mapping)) = some tree') :
    fillTree mapping height (fuel + 1) tree path (height - b.addr.layer) b.addr.rank
        (b.addr.rank + 2 ^ b.addr.layer) b.min b.max =
      let addr := (overlay 0).turn b.addr (b.choose mapping)
      if height - addr.layer ≥ height ∧ b.min + 1 ≥ b.max then some tree'
      else (fillTree mapping height fuel tree' (.left :: path) (height - addr.layer)
          addr.rank (addr.rank + 2 ^ addr.layer) b.min b.mid).bind fun left =>
        fillTree mapping height fuel left (.right :: path) (height - addr.layer)
          addr.rank (addr.rank + 2 ^ addr.layer) b.mid b.max := by
  have layers := fits.layer_le
  obtain ⟨first, last⟩ := fits.reads tasks
  have center :
      b.addr.rank + (b.addr.rank + 2 ^ b.addr.layer - b.addr.rank) / 2 = b.center := by
    unfold Block.center
    rw [Nat.add_sub_cancel_left]
  rw [fillTree, if_neg (by omega)]
  simp only [first, last, center, Block.nested mapping layers low, Option.bind_eq_bind,
    Option.bind_some, set]
  rfl

/-- Filling a tree that is large enough ends with the decisions of the blocks. -/
theorem fillTree_spec {mapping : List Nat} {g height fuel : Nat} {tree : DecisionTree}
    {path : TaskPath} {b : Block} (tasks : mapping.length = 2 ^ g) (bound : height ≤ g)
    (fits : b.Fits g height path.length)
    (room : ∀ path : TaskPath, path.length ≤ 2 * g → tree.InTree path)
    (enough : b.addr.layer + (b.max - b.min) < fuel) :
    ∃ tree', fillTree mapping height fuel tree path (height - b.addr.layer) b.addr.rank
      (b.addr.rank + 2 ^ b.addr.layer) b.min b.max = some tree' ∧
        Filled mapping path b tree tree' := by
  induction fuel generalizing tree path b with
  | zero => omega
  | succ fuel ih =>
    have layers := fits.layer_le
    by_cases low : b.addr.layer = 0
    · refine ⟨tree, ?_, .of_leaf low⟩
      unfold fillTree
      apply if_pos
      omega
    · have deep := fits.deep low
      obtain ⟨tree', set, size, here, others⟩ :=
        DecisionTree.set_eq (room path (by omega)) (.ofTurn (b.choose mapping))
      have child (s : Side) : (b.half mapping s).Fits g height (s :: path).length := fits.half s
      have less (s : Side) : (b.half mapping s).addr.layer +
          ((b.half mapping s).max - (b.half mapping s).min) < fuel := by
        have smaller := fits.half_lt mapping low s
        omega
      have roomy : ∀ path : TaskPath, path.length ≤ 2 * g → tree'.InTree path :=
        fun path short => (room path short).of_length size
      obtain ⟨left, filledLeft, firstHalf⟩ := ih (child .left) roomy (less .left)
      have roomier : ∀ path : TaskPath, path.length ≤ 2 * g → left.InTree path :=
        fun path short => (roomy path short).of_length firstHalf.size
      obtain ⟨right, filledRight, secondHalf⟩ := ih (child .right) roomier (less .right)
      rw [fillTree_inner tasks fits low set]
      by_cases leafy : height - ((overlay 0).turn b.addr (b.choose mapping)).layer ≥ height ∧
          b.min + 1 ≥ b.max
      · -- below a leaf nothing is left to fill
        refine ⟨tree', if_pos leafy, ?_⟩
        have leaf (s : Side) : (b.half mapping s).addr.layer = 0 := by
          have top := (child s).layer_le
          rw [Block.addr_half mapping b s 0] at top ⊢
          omega
        exact .of_children size here others (.of_leaf (leaf .left)) (.of_leaf (leaf .right))
      · refine ⟨right, ?_, .of_children size here others firstHalf secondHalf⟩
        simp only [if_neg leafy]
        have calls : fillTree mapping height fuel tree' (.left :: path)
            (height - ((overlay 0).turn b.addr (b.choose mapping)).layer)
            ((overlay 0).turn b.addr (b.choose mapping)).rank
            (((overlay 0).turn b.addr (b.choose mapping)).rank +
              2 ^ ((overlay 0).turn b.addr (b.choose mapping)).layer) b.min b.mid = some left :=
          filledLeft
        rw [calls]
        exact filledRight

/-- The tree of a mapping is built when the mapping has `2 ^ g` tasks and the network no more than
`g` layers above the leaves, and has the decisions of the blocks. -/
theorem toDecisionTree_spec {mapping : List Nat} {g height : Nat}
    (tasks : mapping.length = 2 ^ g) (bound : height ≤ g) :
    ∃ tree, toDecisionTree (2 ^ height) mapping = some tree ∧
      ∀ path, ((Block.whole height (2 ^ g)).follow mapping path).addr.layer ≠ 0 →
        tree.get path = some (.ofTurn
          (((Block.whole height (2 ^ g)).follow mapping path).choose mapping)) := by
  have created : DecisionTree.create (2 ^ (2 * g)) =
      some ⟨List.replicate (2 * 2 * 2 ^ (2 * g) / 8) 0⟩ := by
    unfold DecisionTree.create
    rw [ceilLog2_two_pow, Nat.shiftLeft_eq, Nat.one_mul, if_pos rfl]
  have unfolded : toDecisionTree (2 ^ height) mapping =
      fillTree mapping height (height + 2 ^ g + 1) ⟨List.replicate (2 * 2 * 2 ^ (2 * g) / 8) 0⟩
        .root 0 0 (2 ^ height) 0 (2 ^ g) := by
    simp only [toDecisionTree, tasks, ceilLog2_two_pow, created, Nat.shiftLeft_eq, Nat.one_mul,
      ↓reduceIte, Option.bind_eq_bind, Option.bind_some]
  rw [unfolded]
  by_cases low : height = 0
  · refine ⟨⟨List.replicate (2 * 2 * 2 ^ (2 * g) / 8) 0⟩, ?_, fun path inner => ?_⟩
    · rw [fillTree, low]
      rfl
    · exact absurd (Block.layer_follow_of_leaf mapping low path) inner
  · have room : ∀ path : TaskPath, path.length ≤ 2 * g →
        (⟨List.replicate (2 * 2 * 2 ^ (2 * g) / 8) 0⟩ : DecisionTree).InTree path := by
      intro path short
      have position := path.getPosition_bounds.2
      have powers : 2 ^ (path.getLength + 1) ≤ 2 ^ (2 * g + 1) :=
        Nat.pow_le_pow_right (by decide) (Nat.succ_le_succ short)
      have whole : 2 ^ (2 * g + 1) = 8 * 2 ^ (2 * g - 2) := by
        rw [show 8 = 2 ^ 3 from rfl, ← Nat.pow_add]
        congr 1
        omega
      have half : 2 ^ (2 * g) = 4 * 2 ^ (2 * g - 2) := by
        rw [show 4 = 2 ^ 2 from rfl, ← Nat.pow_add]
        congr 1
        omega
      unfold DecisionTree.InTree
      rw [List.length_replicate, half]
      omega
    have enough : height + (2 ^ g - 0) < height + 2 ^ g + 1 := by omega
    obtain ⟨tree, built, filled⟩ := @fillTree_spec mapping g height _ _ .root
      (Block.whole height (2 ^ g)) tasks bound (Block.fits_whole g height) room enough
    refine ⟨tree, ?_, fun path inner => ?_⟩
    · rw [← built]
      show _ = fillTree mapping height _ _ _ (height - height) 0 (0 + 2 ^ height) 0 (2 ^ g)
      rw [Nat.sub_self, Nat.zero_add]
    · have decided := filled.below path inner
      rwa [show path ++ TaskPath.root = path from List.append_nil path] at decided

end AllScale
