import AllScale.SchedulePolicy.TreePolicy

/-!
# Reading a mapping back

`task_distribution_mapping` traces every task of the granularity level to the leaf on which it is
executed. In the policy of a mapping the blocks of the encoding tell where a trace ends: a task
is traced to the rank that the mapping gives for it exactly if that rank is still among the ranks
below the node of its block. For a mapping in ascending order this holds of every task. For
mappings in any order `Encodable` says when it does.
-/

namespace AllScale

open TokenTree HierarchyAddress

namespace HierarchyAddress

/-- A rank lies below an address, in an overlay without gaps. -/
def Covers (addr : HierarchyAddress) (rank : Nat) : Prop :=
  addr.rank ≤ rank ∧ rank < addr.rank + 2 ^ addr.layer

/-- A leaf covers its own rank only. -/
theorem covers_leaf {addr : HierarchyAddress} (low : addr.layer = 0) {rank : Nat} :
    addr.Covers rank ↔ rank = addr.rank := by
  unfold Covers
  rw [low, Nat.pow_zero]
  omega

end HierarchyAddress

namespace Block

variable {mapping : List Nat} {b : Block} {rank : Nat}

/-- The ranks below a node that is not a leaf are divided in two equal halves. -/
theorem two_mul_half (inner : b.addr.layer ≠ 0) :
    2 ^ b.addr.layer = 2 ^ (b.addr.layer - 1) + 2 ^ (b.addr.layer - 1) ∧
      b.center = b.addr.rank + 2 ^ (b.addr.layer - 1) := by
  have power : 2 ^ b.addr.layer = 2 ^ (b.addr.layer - 1) + 2 ^ (b.addr.layer - 1) := by
    rw [← Nat.two_mul, ← Nat.pow_succ']
    congr 1
    omega
  unfold center
  omega

/-- Which ranks the node covers to which the turn at a block leads. -/
theorem covers_half (s : Side) (inner : b.addr.layer ≠ 0) :
    (b.half mapping s).addr.Covers rank ↔ b.addr.Covers rank ∧
      (b.choose mapping = some .left → rank < b.center) ∧
      (b.choose mapping = some .right → b.center ≤ rank) := by
  obtain ⟨power, center⟩ := two_mul_half inner
  rw [addr_half mapping b s 0]
  cases chosen : b.choose mapping with
  | none => simp [LayeredTree.turn]
  | some t =>
    rw [LayeredTree.turn_of_inner inner]
    cases t with
    | left =>
      show (b.addr.rank ≤ rank ∧ rank < b.addr.rank + 2 ^ (b.addr.layer - 1)) ↔ _
      unfold Covers
      simp only [forall_const, reduceCtorEq, false_implies, and_true, Option.some.injEq]
      omega
    | right =>
      show (b.addr.rank + 1 <<< (b.addr.layer - 1) ≤ rank ∧
        rank < b.addr.rank + 1 <<< (b.addr.layer - 1) + 2 ^ (b.addr.layer - 1)) ↔ _
      unfold Covers
      rw [Nat.shiftLeft_eq, Nat.one_mul]
      simp only [forall_const, reduceCtorEq, false_implies, true_and, Option.some.injEq]
      omega

/-- The ranks that are still possible after a turn were possible before. -/
theorem covers_of_half (s : Side) (covers : (b.half mapping s).addr.Covers rank) :
    b.addr.Covers rank := by
  by_cases low : b.addr.layer = 0
  · rwa [addr_half mapping b s 0, LayeredTree.turn_of_leaf low] at covers
  · exact ((covers_half s low).mp covers).1

/-- With a single task the turn follows its rank. -/
theorem covers_half_of_single (s : Side) (single : b.max ≤ b.min + 1) (ordered : b.min ≤ b.max)
    (covers : b.addr.Covers (b.curMin mapping)) :
    (b.half mapping s).addr.Covers (b.curMin mapping) := by
  by_cases low : b.addr.layer = 0
  · rwa [addr_half mapping b s 0, LayeredTree.turn_of_leaf low]
  · have last : b.curMax mapping = b.curMin mapping := by
      unfold curMax
      split
      · rfl
      · unfold curMin
        congr 1
        omega
    rw [covers_half s low]
    refine ⟨covers, fun left => ?_, fun right => ?_⟩ <;> unfold choose at *
    · rw [last] at left
      split at left
      · assumption
      · split at left <;> exact absurd left (by decide)
    · rw [last] at right
      split at right
      · exact absurd right (by decide)
      · omega

/-- At a path that is not longer than the granularity the first task has the bits of the path,
filled up with zeros. -/
theorem min_follow {g height : Nat} (path : TaskPath) (short : path.length ≤ g) :
    ((whole height (2 ^ g)).follow mapping path).min =
      path.getPath * 2 ^ (g - path.length) := by
  induction path with
  | nil => exact (Nat.zero_mul _).symm
  | cons s path ih =>
    have shorter : path.length + 1 ≤ g := short
    have before := ih (by omega)
    have fits : ((whole height (2 ^ g)).follow mapping path).Fits g height (0 + path.length) :=
      (fits_whole g height).follow path
    have size := fits.size (by omega)
    have double : 2 ^ (g - path.length) = 2 * 2 ^ (g - (path.length + 1)) := by
      rw [← Nat.pow_succ']
      congr 1
      omega
    have middle : ((whole height (2 ^ g)).follow mapping path).mid =
        ((whole height (2 ^ g)).follow mapping path).min + 2 ^ (g - (path.length + 1)) := by
      unfold mid
      rw [size, Nat.zero_add, double]
      omega
    rw [List.length_cons]
    cases s with
    | left =>
      show ((whole height (2 ^ g)).follow mapping path).min = 2 * TaskPath.getPath path * _
      rw [before, double]
      ring
    | right =>
      show ((whole height (2 ^ g)).follow mapping path).mid = (2 * TaskPath.getPath path + 1) * _
      rw [middle, before, double]
      ring

end Block

namespace TreeSchedulingPolicy

variable {mapping : List Nat} {k g : Nat} {policy : TreeSchedulingPolicy}

/-! ## Traces -/

/-- One round of a trace: it ends at a leaf and otherwise goes on with the left child task. -/
theorem traced (follows : policy.Follows k (planOf mapping k g)) {fuel : Nat} {path : TaskPath}
    (next : ((overlay k).layer ((overlay k).target (planOf mapping k g) path) ≠ 0) →
      path.length + 2 ≤ g + k → ∃ rank, policy.traceTarget fuel (.left :: path) = some rank ∧
        let b := (Block.whole k (2 ^ g)).follow mapping (.left :: path)
        b.addr.Covers rank ∧
          (g ≤ path.length + 1 → b.addr.Covers (b.curMin mapping) → rank = b.curMin mapping)) :
    ∃ rank, policy.traceTarget (fuel + 1) path = some rank ∧
      let b := (Block.whole k (2 ^ g)).follow mapping path
      b.addr.Covers rank ∧
        (g ≤ path.length → b.addr.Covers (b.curMin mapping) → rank = b.curMin mapping) := by
  have fits : ((Block.whole k (2 ^ g)).follow mapping path).Fits g k (0 + path.length) :=
    (Block.fits_whole g k).follow path
  have target : (overlay k).target (planOf mapping k g) path =
      (((Block.whole k (2 ^ g)).follow mapping path).half mapping .left).addr :=
    spot_planOf mapping k g (.left :: path)
  have single (long : g ≤ path.length) := fits.single (by omega)
  rw [target] at next
  rw [traceTarget, follows.getTarget_eq, target]
  simp only [Option.bind_eq_bind, Option.bind_some]
  by_cases low : (((Block.whole k (2 ^ g)).follow mapping path).half mapping .left).addr.layer = 0
  · have leaf : (((Block.whole k (2 ^ g)).follow mapping path).half mapping .left).addr.isLeaf =
        true := beq_iff_eq.mpr low
    rw [if_pos leaf]
    refine ⟨_, rfl, ?_, fun long covers => ?_⟩
    · exact Block.covers_of_half .left ((covers_leaf low).mpr rfl)
    · have reached := Block.covers_half_of_single .left (single long) fits.min_le covers
      exact ((covers_leaf low).mp reached).symm
  · have virtual :
      ¬ (((Block.whole k (2 ^ g)).follow mapping path).half mapping .left).addr.isLeaf =
        true := fun leaf => low (beq_iff_eq.mp leaf)
    have halved : (((Block.whole k (2 ^ g)).follow mapping path).half mapping .left).Fits g k
        (0 + path.length + 1) := fits.half .left
    have deep := halved.deep low
    obtain ⟨rank, returns, covers, meets⟩ := next low (by omega)
    rw [if_neg virtual]
    refine ⟨rank, returns, Block.covers_of_half .left covers, fun long covers => ?_⟩
    apply meets (by omega)
    exact Block.covers_half_of_single .left (single long) fits.min_le covers

/-- A trace ends, below the node of the block of its task; with a single task whose rank is below
that node it ends on that rank. -/
theorem traceTarget_spec (follows : policy.Follows k (planOf mapping k g)) {fuel : Nat}
    {path : TaskPath} (enough : g + k ≤ fuel + path.length) :
    ∃ rank, policy.traceTarget (fuel + 1) path = some rank ∧
      let b := (Block.whole k (2 ^ g)).follow mapping path
      b.addr.Covers rank ∧
        (g ≤ path.length → b.addr.Covers (b.curMin mapping) → rank = b.curMin mapping) := by
  induction fuel generalizing path with
  | zero => exact traced follows fun inner next => absurd next (by omega)
  | succ fuel ih =>
    apply traced follows
    intro inner next
    apply ih
    rw [List.length_cons]
    omega

/-! ## The tasks of the granularity level -/

/-- The paths of a number of levels below a path, from left to right. -/
def level (cur : TaskPath) : (levels : Nat) → List TaskPath
  | 0 => [cur]
  | levels + 1 => level (.left :: cur) levels ++ level (.right :: cur) levels

/-- The paths of a level have its length. -/
theorem length_of_mem_level {levels : Nat} {cur path : TaskPath} (found : path ∈ level cur levels) :
    path.length = cur.length + levels := by
  induction levels generalizing cur with
  | zero =>
    rw [List.mem_singleton.mp found]
    rfl
  | succ levels ih =>
    have below (s : Side) (found : path ∈ level (s :: cur) levels) :
        path.length = cur.length + (levels + 1) := by
      rw [ih found, List.length_cons]
      omega
    rcases List.mem_append.mp found with left | right
    · exact below .left left
    · exact below .right right

/-- The paths of a level count up from left to right. -/
theorem map_getPath_level (levels : Nat) (cur : TaskPath) :
    (level cur levels).map TaskPath.getPath =
      List.range' (cur.getPath * 2 ^ levels) (2 ^ levels) := by
  induction levels generalizing cur with
  | zero =>
    show [cur.getPath] = _
    rw [Nat.pow_zero, Nat.mul_one]
    rfl
  | succ levels ih =>
    have first : TaskPath.getPath (.left :: cur) * 2 ^ levels =
        cur.getPath * 2 ^ (levels + 1) := by
      show 2 * cur.getPath * 2 ^ levels = _
      ring
    have second : TaskPath.getPath (.right :: cur) * 2 ^ levels =
        cur.getPath * 2 ^ (levels + 1) + 1 * 2 ^ levels := by
      show (2 * cur.getPath + 1) * 2 ^ levels = _
      ring
    have whole : 2 ^ (levels + 1) = 2 ^ levels + 2 ^ levels := by
      rw [← Nat.two_mul, ← Nat.pow_succ']
    rw [level, List.map_append, ih, ih, first, second, Nat.one_mul, List.range'_append_1, ← whole]

/-- Among all paths below a path, those of the last level. -/
theorem filter_collectPaths (levels : Nat) (cur : TaskPath) :
    ((collectPaths cur (levels + 1)).filter fun path => path.getLength = cur.length + levels) =
      level cur levels := by
  induction levels generalizing cur with
  | zero =>
    have here : Decidable.decide (cur.getLength = cur.length + 0) = true := decide_eq_true rfl
    rw [collectPaths, List.filter_cons, if_pos here]
    rfl
  | succ levels ih =>
    have above : ¬ Decidable.decide (cur.getLength = cur.length + (levels + 1)) = true := by
      unfold TaskPath.getLength
      rw [decide_eq_true_eq]
      omega
    have below (s : Side) :
        ((collectPaths (s :: cur) (levels + 1)).filter fun path =>
          path.getLength = cur.length + (levels + 1)) = level (s :: cur) levels := by
      have shift : cur.length + (levels + 1) = (s :: cur).length + levels := by
        rw [List.length_cons]
        omega
      rw [shift]
      exact ih (s :: cur)
    rw [collectPaths, List.filter_cons, if_neg above, List.filter_append]
    exact congrArg₂ (· ++ ·) (below .left) (below .right)

/-- When a function returns for every element of a list, it returns for the list. -/
theorem mapM_eq_some_map {α β : Type} {f : α → Option β} {value : α → β} {l : List α}
    (returns : ∀ a ∈ l, f a = some (value a)) : l.mapM f = some (l.map value) := by
  induction l with
  | nil => rfl
  | cons a l ih =>
    rw [List.mapM_cons, returns a List.mem_cons_self,
      ih fun b found => returns b (List.mem_cons_of_mem a found)]
    rfl

/-- When a function returns for a list, it returns as many values as the list has elements. -/
theorem length_of_mapM {α β : Type} {f : α → Option β} {l : List α} {values : List β}
    (returned : l.mapM f = some values) : values.length = l.length := by
  induction l generalizing values with
  | nil =>
    rw [List.mapM_nil] at returned
    obtain rfl := Option.some.inj returned
    rfl
  | cons a l ih =>
    simp only [List.mapM_cons, Option.bind_eq_bind, Option.bind_eq_some_iff] at returned
    obtain ⟨value, -, rest, later, made⟩ := returned
    obtain rfl := Option.some.inj made
    exact congrArg Nat.succ (ih later)

/-- The rank of a task that is read back is the one it was mapped to exactly if that rank lies below
the node of its block. -/
theorem traceTarget_level (follows : policy.Follows k (planOf mapping k g)) {fuel : Nat}
    (enough : g + k ≤ fuel) {path : TaskPath} (found : path ∈ level .root g) :
    ∃ rank, policy.traceTarget (fuel + 1) path = some rank ∧
      (rank = mapping.getD path.getPath 0 ↔
        (((Block.whole k (2 ^ g)).follow mapping path).addr).Covers
          (mapping.getD path.getPath 0)) := by
  have length : path.length = g := by
    rw [length_of_mem_level found]
    exact Nat.zero_add g
  obtain ⟨rank, returns, covers, meets⟩ := @traceTarget_spec _ _ _ _ follows fuel path (by omega)
  have first : ((Block.whole k (2 ^ g)).follow mapping path).curMin mapping =
      mapping.getD path.getPath 0 := by
    unfold Block.curMin
    rw [Block.min_follow path (Nat.le_of_eq length), length, Nat.sub_self, Nat.pow_zero,
      Nat.mul_one]
  rw [first] at meets
  exact ⟨rank, returns, fun same => same ▸ covers, meets (Nat.le_of_eq length.symm)⟩

/-- The mapping that is read back consists of the targets of the tasks of its level. -/
theorem taskDistributionMapping_eq (follows : policy.Follows k (planOf mapping k g))
    (granularity : policy.granularity = g) {fuel : Nat} (enough : g + k ≤ fuel) :
    policy.taskDistributionMapping (fuel + 1) =
      some ((level .root g).map fun path => (policy.traceTarget (fuel + 1) path).getD 0) := by
  unfold taskDistributionMapping getAllPaths
  rw [granularity]
  have last := filter_collectPaths g .root
  rw [show TaskPath.root.length + g = g from Nat.zero_add g] at last
  rw [last]
  apply mapM_eq_some_map
  intro path found
  obtain ⟨rank, returns, -⟩ := traceTarget_level follows enough found
  rw [returns]
  rfl

/-- A mapping that is read back has a rank for every task of the granularity level. -/
theorem length_taskDistributionMapping {fuel : Nat}
    (read : policy.taskDistributionMapping fuel = some mapping) :
    mapping.length = 2 ^ policy.granularity := by
  unfold taskDistributionMapping getAllPaths at read
  have last := filter_collectPaths policy.granularity .root
  rw [show TaskPath.root.length + policy.granularity = policy.granularity from Nat.zero_add _]
    at last
  rw [last] at read
  have paths := congrArg List.length (map_getPath_level policy.granularity .root)
  rw [List.length_map, List.length_range'] at paths
  rw [← paths, length_of_mapM read]

/-- A mapping lists the ranks of the tasks of its level in their order. -/
theorem eq_map_level (tasks : mapping.length = 2 ^ g) :
    mapping = (level .root g).map fun path => mapping.getD path.getPath 0 := by
  have listed : (level .root g).map (fun path => mapping.getD path.getPath 0) =
      ((level .root g).map TaskPath.getPath).map fun i => mapping.getD i 0 := by
    rw [List.map_map]
    rfl
  rw [listed, map_getPath_level g .root]
  apply List.ext_getElem
  · rw [List.length_map, List.length_range', tasks]
  · intro i inside _
    show mapping[i] = _
    rw [List.getElem_map, List.getElem_range']
    show mapping[i] = mapping.getD (0 * 2 ^ g + 1 * i) 0
    rw [Nat.zero_mul, Nat.zero_add, Nat.one_mul, List.getD_eq_getElem?_getD,
      List.getElem?_eq_getElem inside, Option.getD_some]

/-- The mapping that is read back is the encoded one exactly if every rank of the mapping lies below
the node of the block of its task. -/
theorem taskDistributionMapping_iff (follows : policy.Follows k (planOf mapping k g))
    (granularity : policy.granularity = g) (tasks : mapping.length = 2 ^ g) {fuel : Nat}
    (enough : g + k ≤ fuel) :
    policy.taskDistributionMapping (fuel + 1) = some mapping ↔
      ∀ path ∈ level .root g, (((Block.whole k (2 ^ g)).follow mapping path).addr).Covers
        (mapping.getD path.getPath 0) := by
  rw [taskDistributionMapping_eq follows granularity enough]
  conv_lhs => rw [eq_map_level tasks]
  rw [Option.some.injEq, List.map_inj_left]
  constructor
  · intro same path found
    obtain ⟨rank, returns, meets⟩ := traceTarget_level follows enough found
    have value := same path found
    rw [returns] at value
    exact meets.mp value
  · intro covers path found
    obtain ⟨rank, returns, meets⟩ := traceTarget_level follows enough found
    rw [returns]
    exact meets.mpr (covers path found)

/-! ## Mappings in ascending order -/

/-- The ranks of the tasks of a block lie below its node. -/
def Inside (mapping : List Nat) (b : Block) : Prop :=
  ∀ i, b.min ≤ i → i < b.max ∨ i = b.min → b.addr.Covers (mapping.getD i 0)

/-- In a mapping in ascending order later tasks have higher ranks. -/
theorem getD_le_getD (ascending : mapping.Pairwise (· ≤ ·)) {i j : Nat} (before : i ≤ j)
    (inside : j < mapping.length) : mapping.getD i 0 ≤ mapping.getD j 0 := by
  have first : i < mapping.length := Nat.lt_of_le_of_lt before inside
  rw [List.getD_eq_getElem?_getD, List.getD_eq_getElem?_getD, List.getElem?_eq_getElem first,
    List.getElem?_eq_getElem inside, Option.getD_some, Option.getD_some]
  rcases Nat.lt_or_eq_of_le before with lower | same
  · exact List.pairwise_iff_getElem.mp ascending i j first inside lower
  · subst same
    exact Nat.le_refl _

/-- In ascending order the ranks of both halves of a block stay below the node of the turn. -/
theorem Inside.half (ascending : mapping.Pairwise (· ≤ ·)) {b : Block} {length : Nat}
    (tasks : mapping.length = 2 ^ g) (fits : b.Fits g k length) (inside : Inside mapping b)
    (s : Side) : Inside mapping (b.half mapping s) := by
  have ordered := fits.min_le
  have first := fits.min_lt
  have last := fits.max_le
  have middle : b.mid = b.min + (b.max - b.min) / 2 := rfl
  intro i above below
  have within : b.min ≤ i ∧ (i < b.max ∨ i = b.min) := by
    cases s with
    | left =>
      have above : b.min ≤ i := above
      have below : i < b.mid ∨ i = b.min := below
      omega
    | right =>
      have above : b.mid ≤ i := above
      have below : i < b.max ∨ i = b.mid := below
      omega
  have covers := inside i within.1 within.2
  by_cases low : b.addr.layer = 0
  · rwa [Block.addr_half mapping b s 0, LayeredTree.turn_of_leaf low]
  · rw [Block.covers_half s low]
    refine ⟨covers, fun left => ?_, fun right => ?_⟩ <;> unfold Block.choose at *
    · split at left
      · rename_i lower
        apply Nat.lt_of_le_of_lt _ lower
        unfold Block.curMax Block.curMin
        split
        · rw [show i = b.min by omega]
        · exact getD_le_getD ascending (by omega) (by omega)
      · split at left <;> exact absurd left (by simp)
    · split at right
      · exact absurd right (by simp)
      · split at right
        · rename_i upper
          apply Nat.le_trans upper
          exact getD_le_getD ascending within.1 (by omega)
        · exact absurd right (by simp)

/-- The rank of the first task of a block is a rank of the mapping. -/
theorem curMin_follow_mem (tasks : mapping.length = 2 ^ g) (path : TaskPath) :
    ((Block.whole k (2 ^ g)).follow mapping path).curMin mapping ∈ mapping := by
  have fits : ((Block.whole k (2 ^ g)).follow mapping path).Fits g k (0 + path.length) :=
    (Block.fits_whole g k).follow path
  have first : ((Block.whole k (2 ^ g)).follow mapping path).min < mapping.length := by
    rw [tasks]
    exact fits.min_lt
  unfold Block.curMin
  rw [List.getD_eq_getElem?_getD, List.getElem?_eq_getElem first, Option.getD_some]
  exact List.getElem_mem first

/-- The ranks of all tasks lie below the root. -/
theorem inside_follow_nil (tasks : mapping.length = 2 ^ g)
    (ranks : ∀ rank ∈ mapping, rank < 2 ^ k) : Inside mapping (Block.whole k (2 ^ g)) := by
  intro i _ below
  have bound : i < mapping.length := by
    have below : i < 2 ^ g ∨ i = 0 := below
    have positive := Nat.two_pow_pos g
    omega
  show 0 ≤ _ ∧ _ < 0 + 2 ^ k
  rw [Nat.zero_add, List.getD_eq_getElem?_getD, List.getElem?_eq_getElem bound, Option.getD_some]
  exact ⟨Nat.zero_le _, ranks _ (List.getElem_mem bound)⟩

/-- In ascending order the ranks of every block lie below its node. -/
theorem inside_follow (ascending : mapping.Pairwise (· ≤ ·)) (tasks : mapping.length = 2 ^ g)
    (ranks : ∀ rank ∈ mapping, rank < 2 ^ k) (path : TaskPath) :
    Inside mapping ((Block.whole k (2 ^ g)).follow mapping path) := by
  induction path with
  | nil => exact inside_follow_nil tasks ranks
  | cons s path ih =>
    exact ih.half ascending tasks ((Block.fits_whole g k).follow path) s

/-- In ascending order every task at or below the granularity level is traced to the rank of the
first task of its block. -/
theorem traceTarget_ascending (follows : policy.Follows k (planOf mapping k g))
    (ascending : mapping.Pairwise (· ≤ ·)) (tasks : mapping.length = 2 ^ g)
    (ranks : ∀ rank ∈ mapping, rank < 2 ^ k) {path : TaskPath} (long : g ≤ path.length) :
    policy.traceTarget (g + k + 1) path =
      some (((Block.whole k (2 ^ g)).follow mapping path).curMin mapping) := by
  have inside := inside_follow ascending tasks ranks path
  obtain ⟨rank, returns, -, meets⟩ :=
    @traceTarget_spec _ _ _ _ follows (g + k) path (Nat.le_add_right _ _)
  rw [returns, meets long (inside _ (Nat.le_refl _) (Or.inr rfl))]

/-- The ranks of a network are ranks of the overlay above it. -/
theorem ranks_lt_two_pow {size : Nat} (ranks : ∀ rank ∈ mapping, rank < size) :
    ∀ rank ∈ mapping, rank < 2 ^ height size := fun rank found =>
  Nat.lt_of_lt_of_le (ranks rank found) ((height_le_iff size _).mp (Nat.le_refl _))

/-- A mapping in ascending order is read back from a policy that follows its plan. -/
theorem taskDistributionMapping_ascending (follows : policy.Follows k (planOf mapping k g))
    (granularity : policy.granularity = g) (tasks : mapping.length = 2 ^ g)
    (ascending : mapping.Pairwise (· ≤ ·)) (ranks : ∀ rank ∈ mapping, rank < 2 ^ k) {fuel : Nat}
    (enough : g + k < fuel) : policy.taskDistributionMapping fuel = some mapping := by
  obtain ⟨fuel, rfl⟩ : ∃ fewer, fuel = fewer + 1 := ⟨fuel - 1, by omega⟩
  rw [taskDistributionMapping_iff follows granularity tasks (by omega)]
  intro path found
  have length : path.length = g := by
    rw [length_of_mem_level found]
    exact Nat.zero_add g
  have first := @Block.min_follow mapping g k path (Nat.le_of_eq length)
  rw [length, Nat.sub_self, Nat.pow_zero, Nat.mul_one] at first
  rw [← first]
  exact inside_follow ascending tasks ranks path _ (Nat.le_refl _) (Or.inr rfl)

/-- The policy of a mapping in ascending order is built, every task is traced to a leaf, and the
mapping that is read back is the one that was encoded. -/
theorem mapping_read_back {size g : Nat} {mapping : List Nat} (tasks : mapping.length = 2 ^ g)
    (ascending : mapping.Pairwise (· ≤ ·)) (ranks : ∀ rank ∈ mapping, rank < size)
    (shallow : (getRootOfNetworkSize size).layer ≤ g) :
    ∃ tree, toDecisionTree (1 <<< (getRootOfNetworkSize size).layer) mapping = some tree ∧
      let policy : TreeSchedulingPolicy := ⟨getRootOfNetworkSize size, g, tree⟩
      (∀ path, ∃ fuel rank, policy.traceTarget fuel path = some rank) ∧
        ∃ bound, ∀ fuel ≥ bound, policy.taskDistributionMapping fuel = some mapping := by
  rw [layer_getRootOfNetworkSize] at shallow
  obtain ⟨tree, built, follows⟩ := exists_follows tasks shallow
  refine ⟨tree, built, fun path => ?_, g + height size + 1, fun fuel enough => ?_⟩
  · obtain ⟨rank, returns, -⟩ :=
      @traceTarget_spec _ _ _ _ follows (g + height size) path (Nat.le_add_right _ _)
    exact ⟨_, rank, returns⟩
  · exact taskDistributionMapping_ascending follows rfl tasks ascending (ranks_lt_two_pow ranks)
      enough

/-- Two tasks on three nodes, with a mapping that leaves out one of them. -/
theorem mapping_read_back_three :
    ∃ tree, toDecisionTree (1 <<< (getRootOfNetworkSize 3).layer) [0, 0, 2, 2] = some tree ∧
      let policy : TreeSchedulingPolicy := ⟨getRootOfNetworkSize 3, 2, tree⟩
      (∀ path, ∃ fuel rank, policy.traceTarget fuel path = some rank) ∧
        ∃ bound, ∀ fuel ≥ bound, policy.taskDistributionMapping fuel = some [0, 0, 2, 2] :=
  mapping_read_back (by decide) (by decide) (by decide) (by decide)

/-! ## Mappings in any order -/

/-- Whether a block of `2 ^ levels` entries from `min` can be encoded for the ranks of a node, of
which `first` is the first: where the last entry lies in the lower half of the ranks all do, where
otherwise the first one lies in the upper half all do, and the same holds of both halves of the
block for the ranks that are left. -/
def Encodable (mapping : List Nat) : (levels first layers min : Nat) → Prop
  | 0, _, _, _ => True
  | _ + 1, _, 0, _ => True
  | levels + 1, first, layers + 1, min =>
    let center := first + 2 ^ layers
    let count := 2 ^ (levels + 1)
    if mapping.getD (min + count - 1) 0 < center then
      (∀ i < count, mapping.getD (min + i) 0 < center) ∧
        Encodable mapping levels first layers min ∧
        Encodable mapping levels first layers (min + 2 ^ levels)
    else if center ≤ mapping.getD min 0 then
      (∀ i < count, center ≤ mapping.getD (min + i) 0) ∧
        Encodable mapping levels center layers min ∧
        Encodable mapping levels center layers (min + 2 ^ levels)
    else
      Encodable mapping levels first (layers + 1) min ∧
        Encodable mapping levels first (layers + 1) (min + 2 ^ levels)

/-- Whether a mapping can be encoded is decided by comparing its entries. -/
instance decidableEncodable (mapping : List Nat) :
    (levels first layers min : Nat) → Decidable (Encodable mapping levels first layers min)
  | 0, _, _, _ => isTrue trivial
  | _ + 1, _, 0, _ => isTrue trivial
  | levels + 1, first, layers + 1, min =>
    have := decidableEncodable mapping levels
    inferInstanceAs (Decidable (if mapping.getD (min + 2 ^ (levels + 1) - 1) 0 < first + 2 ^ layers
      then (∀ i < 2 ^ (levels + 1), mapping.getD (min + i) 0 < first + 2 ^ layers) ∧
        Encodable mapping levels first layers min ∧
        Encodable mapping levels first layers (min + 2 ^ levels)
      else if first + 2 ^ layers ≤ mapping.getD min 0
      then (∀ i < 2 ^ (levels + 1), first + 2 ^ layers ≤ mapping.getD (min + i) 0) ∧
        Encodable mapping levels (first + 2 ^ layers) layers min ∧
        Encodable mapping levels (first + 2 ^ layers) layers (min + 2 ^ levels)
      else Encodable mapping levels first (layers + 1) min ∧
        Encodable mapping levels first (layers + 1) (min + 2 ^ levels)))

/-- With one rank left there is nothing to decide. -/
theorem encodable_of_leaf (mapping : List Nat) (levels first min : Nat) :
    Encodable mapping levels first 0 min := by
  cases levels <;> exact trivial

/-- The ranks of the tasks of a block lie below a node. -/
def Below (mapping : List Nat) (b : Block) (addr : HierarchyAddress) : Prop :=
  ∀ i, b.min ≤ i → i < b.max → addr.Covers (mapping.getD i 0)

/-- Where the ranks of a block lie below the node to which the turn leads, those of its halves
do. -/
theorem Below.half {b : Block} (ordered : b.min ≤ b.max)
    (turned : Below mapping b (b.half mapping .left).addr) (s : Side) :
    Below mapping (b.half mapping s) (b.half mapping s).addr := by
  have together : (b.half mapping s).addr = (b.half mapping .left).addr := by
    rw [Block.addr_half mapping b s 0, Block.addr_half mapping b .left 0]
  have middle : b.mid = b.min + (b.max - b.min) / 2 := rfl
  rw [together]
  intro i above before
  cases s with
  | left =>
    have above : b.min ≤ i := above
    have before : i < b.mid := before
    exact turned i above (by omega)
  | right =>
    have above : b.mid ≤ i := above
    have before : i < b.max := before
    exact turned i (by omega) before

/-- A half of a block can be encoded. -/
def EncodableHalf (mapping : List Nat) (levels : Nat) (b : Block) (s : Side) : Prop :=
  Encodable mapping levels (b.half mapping s).addr.rank (b.half mapping s).addr.layer
    (b.half mapping s).min

/-- The entries of a block, counted from its first one. -/
theorem forall_entries {b : Block} {tasks : Nat} (size : b.max = b.min + tasks)
    (mapping : List Nat) (P : Nat → Prop) : (∀ i < tasks, P (mapping.getD (b.min + i) 0)) ↔
      ∀ i, b.min ≤ i → i < b.max → P (mapping.getD i 0) := by
  constructor
  · intro all i above before
    have entry := all (i - b.min) (by omega)
    rwa [Nat.add_sub_cancel' above] at entry
  · intro all i bound
    exact all (b.min + i) (by omega) (by omega)

/-- The ranks of a block lie below the node to which the turn leads exactly if they are all on the
side of the centre that was chosen. -/
theorem below_half_iff {b : Block} (low : b.addr.layer ≠ 0) (below : Below mapping b b.addr) :
    Below mapping b (b.half mapping .left).addr ↔
      ∀ i, b.min ≤ i → i < b.max →
        (b.choose mapping = some .left → mapping.getD i 0 < b.center) ∧
        (b.choose mapping = some .right → b.center ≤ mapping.getD i 0) := by
  constructor
  · intro inside i above before
    exact ((Block.covers_half .left low).mp (inside i above before)).2
  · intro chosen i above before
    exact (Block.covers_half .left low).mpr ⟨below i above before, chosen i above before⟩

/-- A block can be encoded when its ranks lie below the node to which the turn leads and both of
its halves can be encoded. -/
theorem encodable_succ {b : Block} {levels : Nat} (size : b.max = b.min + 2 ^ (levels + 1))
    (below : Below mapping b b.addr) :
    Encodable mapping (levels + 1) b.addr.rank b.addr.layer b.min ↔
      Below mapping b (b.half mapping .left).addr ∧ EncodableHalf mapping levels b .left ∧
        EncodableHalf mapping levels b .right := by
  have whole : 2 ^ (levels + 1) = 2 ^ levels + 2 ^ levels := by
    rw [← Nat.two_mul, ← Nat.pow_succ']
  have positive := Nat.two_pow_pos levels
  have middle : b.mid = b.min + 2 ^ levels := by
    unfold Block.mid
    omega
  have addr (s : Side) : (b.half mapping s).addr = (overlay 0).turn b.addr (b.choose mapping) :=
    Block.addr_half mapping b s 0
  have left : (b.half mapping .left).min = b.min := rfl
  have right : (b.half mapping .right).min = b.min + 2 ^ levels := middle
  unfold EncodableHalf
  rw [left, right, addr .left, addr .right]
  by_cases low : b.addr.layer = 0
  · rw [LayeredTree.turn_of_leaf low, low]
    exact ⟨fun _ => ⟨below, encodable_of_leaf _ _ _ _, encodable_of_leaf _ _ _ _⟩,
      fun _ => encodable_of_leaf _ _ _ _⟩
  · have counted := forall_entries size mapping
    have turned := below_half_iff low below
    have last : mapping.getD (b.min + 2 ^ (levels + 1) - 1) 0 = b.curMax mapping := by
      unfold Block.curMax
      rw [if_neg (by omega), size]
    obtain ⟨layer, height⟩ := Nat.exists_eq_succ_of_ne_zero low
    obtain ⟨power, center⟩ := Block.two_mul_half low
    rw [height, Nat.succ_sub_one] at center
    rw [← addr .left, turned, addr .left, height, Nat.succ_eq_add_one, Encodable]
    simp only [last, ← center, show mapping.getD b.min 0 = b.curMin mapping from rfl]
    unfold Block.choose
    split
    · rw [LayeredTree.turn_of_inner low, counted (· < b.center)]
      have lower : (overlay 0).child .left b.addr = ⟨b.addr.rank, layer⟩ := by
        show (⟨b.addr.rank, b.addr.layer - 1⟩ : HierarchyAddress) = _
        rw [height, Nat.succ_sub_one]
      rw [lower]
      simp
    · split
      · rw [LayeredTree.turn_of_inner low, counted (b.center ≤ ·)]
        have upper : (overlay 0).child .right b.addr = ⟨b.center, layer⟩ := by
          show (⟨b.addr.rank + 1 <<< (b.addr.layer - 1), b.addr.layer - 1⟩ : HierarchyAddress) = _
          rw [height, Nat.succ_sub_one, center, Nat.shiftLeft_eq, Nat.one_mul]
        rw [upper]
        simp
      · rw [LayeredTree.turn, height]
        simp

/-- The ranks that are still possible at a path were possible before. -/
theorem covers_of_suffix {b : Block} {cur path : TaskPath} {rank : Nat} (prior : cur <:+ path)
    (covers : (b.follow mapping path).addr.Covers rank) :
    (b.follow mapping cur).addr.Covers rank := by
  induction path with
  | nil => rwa [List.suffix_nil.mp prior]
  | cons s path ih =>
    rcases List.suffix_cons_iff.mp prior with same | shorter
    · rwa [same]
    · exact ih shorter (Block.covers_of_half s covers)

/-- The paths of a level start with the path above. -/
theorem suffix_of_mem_level {levels : Nat} {cur path : TaskPath} (found : path ∈ level cur levels) :
    cur <:+ path := by
  induction levels generalizing cur with
  | zero =>
    rw [List.mem_singleton.mp found]
  | succ levels ih =>
    rcases List.mem_append.mp found with left | right
    · exact (List.suffix_cons _ _).trans (ih left)
    · exact (List.suffix_cons _ _).trans (ih right)

/-- Every task of a block has a path below the path of the block. -/
theorem exists_mem_level {levels : Nat} {cur : TaskPath} {i : Nat}
    (above : cur.getPath * 2 ^ levels ≤ i)
    (before : i < cur.getPath * 2 ^ levels + 2 ^ levels) :
    ∃ path ∈ level cur levels, path.getPath = i := by
  apply List.mem_map.mp
  rw [map_getPath_level, List.mem_range'_1]
  exact ⟨above, before⟩

/-- When the ranks of all tasks below a path lie below the nodes of their blocks, they lie below the
node to which the turn leads. -/
theorem below_half_of_covers {levels : Nat} {cur : TaskPath}
    (first : ((Block.whole k (2 ^ g)).follow mapping cur).min = cur.getPath * 2 ^ (levels + 1))
    (size : ((Block.whole k (2 ^ g)).follow mapping cur).max =
      cur.getPath * 2 ^ (levels + 1) + 2 ^ (levels + 1))
    (covers : ∀ path ∈ level cur (levels + 1),
      (((Block.whole k (2 ^ g)).follow mapping path).addr).Covers
        (mapping.getD path.getPath 0)) :
    Below mapping ((Block.whole k (2 ^ g)).follow mapping cur)
      (((Block.whole k (2 ^ g)).follow mapping cur).half mapping .left).addr := by
  intro i above before
  obtain ⟨path, found, rfl⟩ := @exists_mem_level (levels + 1) cur i (by omega) (by omega)
  have reached := covers path found
  rcases List.mem_append.mp found with left | right
  · exact covers_of_suffix (suffix_of_mem_level left) reached
  · have lower : (((Block.whole k (2 ^ g)).follow mapping cur).half mapping
        .right).addr.Covers _ := covers_of_suffix (suffix_of_mem_level right) reached
    rwa [Block.addr_half mapping _ .right 0, ← Block.addr_half mapping _ .left 0] at lower

/-- Below a path, the ranks of all tasks lie below the nodes of their blocks exactly if the block of
the path can be encoded. -/
theorem covers_level_iff {levels : Nat} {cur : TaskPath} (length : cur.length + levels = g)
    (below : Below mapping ((Block.whole k (2 ^ g)).follow mapping cur)
      ((Block.whole k (2 ^ g)).follow mapping cur).addr) :
    (∀ path ∈ level cur levels, (((Block.whole k (2 ^ g)).follow mapping path).addr).Covers
        (mapping.getD path.getPath 0)) ↔
      Encodable mapping levels ((Block.whole k (2 ^ g)).follow mapping cur).addr.rank
        ((Block.whole k (2 ^ g)).follow mapping cur).addr.layer
        ((Block.whole k (2 ^ g)).follow mapping cur).min := by
  induction levels generalizing cur with
  | zero =>
    have fits : ((Block.whole k (2 ^ g)).follow mapping cur).Fits g k (0 + cur.length) :=
      (Block.fits_whole g k).follow cur
    have size := fits.size (by omega)
    have first := @Block.min_follow mapping g k cur (by omega)
    rw [show g - cur.length = 0 by omega, Nat.pow_zero, Nat.mul_one] at first
    refine ⟨fun _ => trivial, fun _ path found => ?_⟩
    rw [List.mem_singleton.mp found, ← first]
    exact below _ (Nat.le_refl _) (by
      have positive := Nat.two_pow_pos (g - (0 + cur.length))
      omega)
  | succ levels ih =>
    have fits : ((Block.whole k (2 ^ g)).follow mapping cur).Fits g k (0 + cur.length) :=
      (Block.fits_whole g k).follow cur
    have size := fits.size (by omega)
    rw [show g - (0 + cur.length) = levels + 1 by omega] at size
    have first := @Block.min_follow mapping g k cur (by omega)
    rw [show g - cur.length = levels + 1 by omega] at first
    rw [encodable_succ size below]
    have halves (turned : Below mapping ((Block.whole k (2 ^ g)).follow mapping cur)
        (((Block.whole k (2 ^ g)).follow mapping cur).half mapping .left).addr) (s : Side) :
        (∀ path ∈ level (s :: cur) levels,
          (((Block.whole k (2 ^ g)).follow mapping path).addr).Covers
            (mapping.getD path.getPath 0)) ↔
          EncodableHalf mapping levels ((Block.whole k (2 ^ g)).follow mapping cur) s := by
      apply ih
      · rw [List.length_cons]
        omega
      · exact turned.half fits.min_le s
    constructor
    · intro covers
      have turned := below_half_of_covers (by omega) (by omega) covers
      refine ⟨turned, (halves turned .left).mp fun path found => ?_,
        (halves turned .right).mp fun path found => ?_⟩
      · exact covers path (List.mem_append_left _ found)
      · exact covers path (List.mem_append_right _ found)
    · rintro ⟨turned, left, right⟩ path found
      rcases List.mem_append.mp found with lower | upper
      · exact (halves turned .left).mpr left path lower
      · exact (halves turned .right).mpr right path upper

/-- A mapping onto ranks of the overlay is read back exactly if it can be encoded. -/
theorem taskDistributionMapping_eq_iff (follows : policy.Follows k (planOf mapping k g))
    (granularity : policy.granularity = g) (tasks : mapping.length = 2 ^ g)
    (ranks : ∀ rank ∈ mapping, rank < 2 ^ k) {fuel : Nat} (enough : g + k < fuel) :
    policy.taskDistributionMapping fuel = some mapping ↔ Encodable mapping g 0 k 0 := by
  obtain ⟨fuel, rfl⟩ : ∃ fewer, fuel = fewer + 1 := ⟨fuel - 1, by omega⟩
  rw [taskDistributionMapping_iff follows granularity tasks (by omega)]
  have below : Below mapping (Block.whole k (2 ^ g)) (Block.whole k (2 ^ g)).addr :=
    fun i above before => inside_follow_nil tasks ranks i above (Or.inl before)
  exact @covers_level_iff mapping k g g .root (Nat.zero_add g) below

/-- A policy is made from every mapping of `2 ^ g` tasks onto ranks of the network, and follows the
plan of the mapping. -/
theorem fromMapping_eq {old : TreeSchedulingPolicy} {size g : Nat} {mapping : List Nat}
    (root : old.root = getRootOfNetworkSize size) (granularity : old.granularity = g)
    (tasks : mapping.length = 2 ^ g) (enough : size ≤ 2 ^ g) :
    ∃ policy, old.fromMapping mapping = some policy ∧ policy.granularity = g ∧
      policy.Follows (height size) (planOf mapping (height size) g) := by
  obtain ⟨tree, built, follows⟩ := exists_follows tasks ((height_le_iff size g).mpr enough)
  refine ⟨_, ?_, rfl, follows⟩
  unfold fromMapping
  rw [root, granularity]
  simp only [built, Option.bind_eq_bind, Option.bind_some]

/-- The policy that is made from a mapping sends every task to the rank that the mapping gives for
it exactly if the mapping can be encoded. -/
theorem mapping_honoured_iff {old : TreeSchedulingPolicy} {size g : Nat} {mapping : List Nat}
    (root : old.root = getRootOfNetworkSize size) (granularity : old.granularity = g)
    (tasks : mapping.length = 2 ^ g) (enough : size ≤ 2 ^ g)
    (ranks : ∀ rank ∈ mapping, rank < size) :
    (∃ policy, old.fromMapping mapping = some policy ∧
        ∃ bound, ∀ fuel ≥ bound, policy.taskDistributionMapping fuel = some mapping) ↔
      Encodable mapping g 0 (height size) 0 := by
  obtain ⟨policy, made, level, follows⟩ := fromMapping_eq root granularity tasks enough
  have read {fuel : Nat} (long : g + height size < fuel) :=
    taskDistributionMapping_eq_iff follows level tasks (ranks_lt_two_pow ranks) long
  rw [made]
  constructor
  · rintro ⟨policy', same, bound, returned⟩
    obtain rfl := Option.some.inj same
    have far : g + height size < bound + (g + height size) + 1 := by omega
    exact (read far).mp (returned _ (by omega))
  · intro holds
    exact ⟨policy, rfl, g + height size + 1, fun fuel long => (read long).mpr holds⟩

/-- Four tasks on two nodes, in an order that can be encoded. -/
theorem mapping_honoured_two :
    (∃ policy, (⟨getRootOfNetworkSize 2, 2, ⟨[]⟩⟩ : TreeSchedulingPolicy).fromMapping
        [0, 1, 0, 1] = some policy ∧
        ∃ bound, ∀ fuel ≥ bound, policy.taskDistributionMapping fuel = some [0, 1, 0, 1]) ↔
      Encodable [0, 1, 0, 1] 2 0 (height 2) 0 :=
  mapping_honoured_iff rfl rfl (by decide) (by decide) (by decide)

/-- Of thirty-two tasks on two nodes only the first goes to the second node. -/
theorem mapping_not_honoured : ¬ ∀ (old : TreeSchedulingPolicy) (size g : Nat) (mapping : List Nat),
    old.root = getRootOfNetworkSize size → old.granularity = g → mapping.length = 2 ^ g →
    size ≤ 2 ^ g → (∀ rank ∈ mapping, rank < size) →
    ∃ policy, old.fromMapping mapping = some policy ∧
      ∃ bound, ∀ fuel ≥ bound, policy.taskDistributionMapping fuel = some mapping := by
  intro honoured
  have tasks : (1 :: List.replicate 31 0).length = 2 ^ 5 := by decide
  have ranks : ∀ rank ∈ 1 :: List.replicate 31 0, rank < 2 := by decide
  obtain ⟨policy, made, level, follows⟩ :=
    @fromMapping_eq ⟨getRootOfNetworkSize 2, 5, ⟨[]⟩⟩ 2 5 _ rfl rfl tasks (by decide)
  obtain ⟨policy', made', bound, returned⟩ :=
    honoured ⟨getRootOfNetworkSize 2, 5, ⟨[]⟩⟩ 2 5 _ rfl rfl tasks (by decide) ranks
  rw [made] at made'
  obtain rfl := Option.some.inj made'
  have encodable := (taskDistributionMapping_eq_iff follows level tasks (ranks_lt_two_pow ranks)
    (show 5 + height 2 < bound + (5 + height 2) + 1 by omega)).mp (returned _ (by omega))
  exact absurd encodable (by decide)

end TreeSchedulingPolicy

end AllScale
