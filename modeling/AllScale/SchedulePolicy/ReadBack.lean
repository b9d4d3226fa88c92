import AllScale.SchedulePolicy.Mapping

/-!
# Encoding what has been read back

The mapping that is read back from a policy need not be the one that was encoded. But it is one that
can be encoded: in every block it decides as the mapping did. A turn sends all tasks of the block to
one side, and where no turn was taken the outermost tasks of the block end on different sides. So
the policy of a mapping that was read back is read back as that mapping.
-/

namespace AllScale

open TokenTree HierarchyAddress

namespace Block

variable {mapping : List Nat} {b : Block} {rank center : Nat}

/-- The outermost task of a block on a side. -/
def outer (b : Block) : Side → Nat
  | .left => b.min
  | .right => b.max - 1

/-- A rank lies on a side of a centre. -/
def Beside (center rank : Nat) : Side → Prop
  | .left => rank < center
  | .right => center ≤ rank

/-- When the outermost task of a block belongs to its side, no turn to the other side is taken. -/
theorem choose_of_outer {s : Side} (tasks : b.min < b.max)
    (beside : Beside b.center (mapping.getD (b.outer s) 0) s) :
    b.choose mapping = some s ∨ b.choose mapping = none := by
  have last : b.curMax mapping = mapping.getD (b.max - 1) 0 := if_neg (by omega)
  unfold choose
  rw [last]
  cases s with
  | left =>
    have below : b.curMin mapping < b.center := beside
    split
    · exact Or.inl rfl
    · rw [if_neg (by omega)]
      exact Or.inr rfl
  | right =>
    have above : b.center ≤ mapping.getD (b.max - 1) 0 := beside
    rw [if_neg (by omega)]
    split
    · exact Or.inl rfl
    · exact Or.inr rfl

/-- When the only task of a block belongs to a side, the turn to that side is taken. -/
theorem choose_of_single {s : Side} (single : b.max = b.min + 1)
    (beside : Beside b.center (mapping.getD (b.outer s) 0) s) : b.choose mapping = some s := by
  rcases choose_of_outer (by omega) beside with turned | stay
  · exact turned
  · have several := two_le_of_stay (by omega) stay
    omega

/-- Where no turn is taken, the outermost tasks belong to their sides. -/
theorem beside_of_stay (tasks : b.min < b.max) (stay : b.choose mapping = none) (s : Side) :
    Beside b.center (mapping.getD (b.outer s) 0) s := by
  have last : b.curMax mapping = mapping.getD (b.max - 1) 0 := if_neg (by omega)
  unfold choose at stay
  rw [last] at stay
  split at stay
  · cases stay
  · rename_i high
    split at stay
    · cases stay
    · rename_i low
      cases s with
      | left => exact Nat.not_le.mp low
      | right => exact Nat.not_lt.mp high

/-- After a turn to a side all ranks that are left lie on that side. -/
theorem beside_of_covers {s : Side} (inner : b.addr.layer ≠ 0) (turned : b.choose mapping = some s)
    {t : Side} (covers : (b.half mapping t).addr.Covers rank) : Beside b.center rank s := by
  obtain ⟨-, left, right⟩ := (covers_half t inner).mp covers
  cases s with
  | left => exact left turned
  | right => exact right turned

/-- When the outermost tasks of a block belong to their sides, no turn is taken. -/
theorem choose_eq_none (tasks : b.min < b.max)
    (beside : ∀ s, Beside b.center (mapping.getD (b.outer s) 0) s) : b.choose mapping = none := by
  rcases choose_of_outer tasks (beside .left) with left | stay
  · rcases choose_of_outer tasks (beside .right) with right | stay
    · rw [left] at right
      cases right
    · exact stay
  · exact stay

/-- The half of a block on a side has the same outermost task there. -/
theorem outer_half (mapping : List Nat) (b : Block) (s : Side) :
    (b.half mapping s).outer s = b.outer s := by
  cases s <;> rfl

end Block

namespace TreeSchedulingPolicy

variable {mapping before : List Nat} {k g : Nat} {policy : TreeSchedulingPolicy}

/-- The block at a path, for a mapping of `2 ^ g` tasks. -/
abbrev blockAt (mapping : List Nat) (k g : Nat) (path : TaskPath) : Block :=
  (Block.whole k (2 ^ g)).follow mapping path

/-- The block at a path fits. -/
theorem fits_blockAt (mapping : List Nat) (k g : Nat) (path : TaskPath) :
    (blockAt mapping k g path).Fits g k (0 + path.length) :=
  (Block.fits_whole g k).follow path

/-! ## Traces -/

/-- Wherever a trace ends, it ends below the target of its path. -/
theorem covers_of_traceTarget (follows : policy.Follows k (planOf mapping k g)) {fuel rank : Nat}
    {path : TaskPath} (traced : policy.traceTarget fuel path = some rank) (s : Side) :
    ((blockAt mapping k g path).half mapping s).addr.Covers rank := by
  rw [Block.addr_half mapping _ s 0, ← Block.addr_half mapping _ .left 0]
  induction fuel generalizing path with
  | zero => cases traced
  | succ fuel ih =>
    have target : (overlay k).target (planOf mapping k g) path =
        ((blockAt mapping k g path).half mapping .left).addr :=
      spot_planOf mapping k g (.left :: path)
    rw [traceTarget, follows.getTarget_eq, target] at traced
    simp only [Option.bind_eq_bind, Option.bind_some] at traced
    split at traced
    · rename_i leaf
      exact (covers_leaf (beq_iff_eq.mp leaf)).mpr (Option.some.inj traced).symm
    · exact Block.covers_of_half .left (ih traced)

/-- A trace that has ended ends in the same way with more fuel. -/
theorem traceTarget_mono {fuel more rank : Nat} {path : TaskPath}
    (traced : policy.traceTarget fuel path = some rank) (enough : fuel ≤ more) :
    policy.traceTarget more path = some rank := by
  induction fuel generalizing more path with
  | zero => cases traced
  | succ fuel ih =>
    obtain ⟨more, rfl⟩ : ∃ fewer, more = fewer + 1 := ⟨more - 1, by omega⟩
    rw [traceTarget] at traced ⊢
    cases reached : policy.getTarget path with
    | none =>
      rw [reached] at traced
      cases traced
    | some res =>
      rw [reached] at traced
      simp only [Option.bind_eq_bind, Option.bind_some] at traced ⊢
      split at traced
      · rename_i leaf
        rw [if_pos leaf]
        exact traced
      · rename_i inner
        rw [if_neg inner]
        exact ih traced (by omega)

/-- What a function returns for a list are the values for its elements. -/
theorem getElem?_of_mapM {α β : Type} {f : α → Option β} {l : List α} {values : List β}
    (returned : l.mapM f = some values) {i : Nat} {a : α} (at_ : l[i]? = some a) :
    f a = values[i]? := by
  induction l generalizing values i with
  | nil => simp at at_
  | cons first l ih =>
    simp only [List.mapM_cons, Option.bind_eq_bind, Option.bind_eq_some_iff] at returned
    obtain ⟨value, found, rest, later, made⟩ := returned
    obtain rfl := Option.some.inj made
    cases i with
    | zero =>
      obtain rfl := Option.some.inj at_
      exact found
    | succ i => exact ih later at_

/-- The entries of a mapping that is read back are the ranks on which the traces of the tasks
end. -/
theorem traceTarget_of_read {fuel : Nat} (read : policy.taskDistributionMapping fuel = some before)
    (granularity : policy.granularity = g) {path : TaskPath} (found : path ∈ level .root g) :
    policy.traceTarget fuel path = some (before.getD path.getPath 0) := by
  have length := length_taskDistributionMapping read
  unfold taskDistributionMapping getAllPaths at read
  have last := filter_collectPaths g .root
  rw [show TaskPath.root.length + g = g from Nat.zero_add g] at last
  rw [granularity, last] at read
  obtain ⟨i, at_⟩ := List.getElem?_of_mem found
  have counted := congrArg (fun paths => paths[i]?) (map_getPath_level g .root)
  have inside : i < 2 ^ g := by
    obtain ⟨bound, -⟩ := List.getElem?_eq_some_iff.mp at_
    have paths := congrArg List.length (map_getPath_level g .root)
    rw [List.length_map, List.length_range'] at paths
    omega
  have index : path.getPath = i := by
    simp only [List.getElem?_map, at_, Option.map_some, List.getElem?_range' inside,
      Option.some.injEq] at counted
    rw [counted]
    show 0 * 2 ^ g + 1 * i = i
    omega
  rw [getElem?_of_mapM read at_, index, List.getD_eq_getElem?_getD,
    List.getElem?_eq_getElem (by rw [length, granularity]; exact inside), Option.getD_some]

/-! ## The blocks of a mapping that was read back -/

/-- A mapping has been read back from the policy of another one: every entry lies below the target
of its task. -/
def ReadFrom (k g : Nat) (mapping before : List Nat) : Prop :=
  ∀ path ∈ level .root g,
    ((blockAt mapping k g path).half mapping .left).addr.Covers (before.getD path.getPath 0)

/-- What is read back from a policy has been read back from its mapping. -/
theorem readFrom_of_read (follows : policy.Follows k (planOf mapping k g))
    (granularity : policy.granularity = g) {fuel : Nat}
    (read : policy.taskDistributionMapping fuel = some before) : ReadFrom k g mapping before :=
  fun _ found => covers_of_traceTarget follows (traceTarget_of_read read granularity found) .left

/-- The paths below a path are those of a level below it. -/
theorem mem_level {levels : Nat} {cur path : TaskPath} (prior : cur <:+ path)
    (length : path.length = cur.length + levels) : path ∈ level cur levels := by
  induction levels generalizing cur with
  | zero => exact List.mem_singleton.mpr (prior.eq_of_length length.symm).symm
  | succ levels ih =>
    obtain ⟨rest, rfl⟩ := prior
    rcases List.eq_nil_or_concat' rest with none | ⟨rest, s, rfl⟩
    · subst none
      exact absurd length (by simp)
    · have prior : (s :: cur) <:+ rest ++ [s] ++ cur :=
        ⟨rest, List.append_cons rest s cur⟩
      have deeper := @ih (s :: cur) prior (by rw [length, List.length_cons]; omega)
      rw [level, List.mem_append]
      cases s with
      | left => exact Or.inl deeper
      | right => exact Or.inr deeper

/-- Paths that have the length of the granularity are those of its level. -/
theorem mem_level_root {path : TaskPath} (length : path.length = g) : path ∈ level .root g :=
  mem_level List.nil_suffix (length.trans (Nat.zero_add g).symm)

/-- Along one side of a block at which no turn is taken, the outermost task remains the same, and
either no turn has been taken or all ranks that are left lie on that side. -/
theorem outer_descent {cur : TaskPath} {s : Side}
    (inner : (blockAt mapping k g cur).addr.layer ≠ 0)
    (beside : Block.Beside (blockAt mapping k g cur).center
      (mapping.getD ((blockAt mapping k g cur).outer s) 0) s)
    (n : Nat) (short : cur.length + n ≤ g) :
    (blockAt mapping k g (List.replicate n s ++ cur)).outer s = (blockAt mapping k g cur).outer s ∧
      ((blockAt mapping k g (List.replicate n s ++ cur)).addr = (blockAt mapping k g cur).addr ∨
        ∀ rank, (blockAt mapping k g (List.replicate n s ++ cur)).addr.Covers rank →
          Block.Beside (blockAt mapping k g cur).center rank s) := by
  induction n with
  | zero => exact ⟨rfl, Or.inl rfl⟩
  | succ n ih =>
    obtain ⟨same, place⟩ := ih (by omega)
    rw [List.replicate_succ, List.cons_append]
    show ((blockAt mapping k g (List.replicate n s ++ cur)).half mapping s).outer s = _ ∧
      (((blockAt mapping k g (List.replicate n s ++ cur)).half mapping s).addr = _ ∨
        ∀ rank, ((blockAt mapping k g (List.replicate n s ++ cur)).half mapping s).addr.Covers
          rank → _)
    refine ⟨(Block.outer_half mapping _ s).trans same, ?_⟩
    rcases place with stayed | turned
    · have fits := fits_blockAt mapping k g (List.replicate n s ++ cur)
      have size := fits.size (by rw [List.length_append, List.length_replicate]; omega)
      have positive := Nat.two_pow_pos (g - (0 + (List.replicate n s ++ cur).length))
      have center : (blockAt mapping k g (List.replicate n s ++ cur)).center =
          (blockAt mapping k g cur).center := by
        unfold Block.center
        rw [stayed]
      have inner' : (blockAt mapping k g (List.replicate n s ++ cur)).addr.layer ≠ 0 := by
        rwa [stayed]
      rw [← center, ← same] at beside
      rcases Block.choose_of_outer (by omega) beside with turn | stay
      · right
        intro rank covers
        rw [← center]
        exact Block.beside_of_covers inner' turn covers
      · left
        rw [Block.addr_half mapping _ s 0, stay]
        exact stayed
    · exact Or.inr fun rank covers => turned rank (Block.covers_of_half s covers)

/-- Where no turn is taken at a block of several tasks, its outermost tasks are read back on their
sides. -/
theorem beside_of_read (readFrom : ReadFrom k g mapping before) {cur : TaskPath} {s : Side}
    (short : cur.length ≤ g) (inner : (blockAt mapping k g cur).addr.layer ≠ 0)
    (beside : Block.Beside (blockAt mapping k g cur).center
      (mapping.getD ((blockAt mapping k g cur).outer s) 0) s) :
    Block.Beside (blockAt mapping k g cur).center
      (before.getD ((blockAt mapping k g cur).outer s) 0) s := by
  have whole : cur.length + (g - cur.length) = g := by omega
  obtain ⟨same, place⟩ := outer_descent inner beside (g - cur.length) (Nat.le_of_eq whole)
  generalize leaf : (List.replicate (g - cur.length) s ++ cur : TaskPath) = path at same place
  have length : path.length = g := by
    rw [← leaf, List.length_append, List.length_replicate]
    omega
  have fits := fits_blockAt mapping k g path
  have size := fits.size (by omega)
  rw [Nat.zero_add, length, Nat.sub_self, Nat.pow_zero] at size
  have first := @Block.min_follow mapping g k path (Nat.le_of_eq length)
  rw [length, Nat.sub_self, Nat.pow_zero, Nat.mul_one] at first
  have index : (blockAt mapping k g path).outer s = TaskPath.getPath path := by
    rw [← first]
    cases s with
    | left => rfl
    | right =>
      show (blockAt mapping k g path).max - 1 = _
      rw [size]
      rfl
  have covers := readFrom path (mem_level_root length)
  rw [← index, same] at covers
  rcases place with stayed | turned
  · have center : (blockAt mapping k g path).center = (blockAt mapping k g cur).center := by
      unfold Block.center
      rw [stayed]
    rw [← center, ← same] at beside
    have inner' : (blockAt mapping k g path).addr.layer ≠ 0 := by rwa [stayed]
    rw [← center]
    exact Block.beside_of_covers inner' (Block.choose_of_single size beside) covers
  · exact turned _ (Block.covers_of_half .left covers)

/-- All entries of a block of several tasks lie below the node to which the turn leads. -/
theorem covers_of_read (readFrom : ReadFrom k g mapping before) {cur : TaskPath}
    (short : cur.length < g) {i : Nat} (above : (blockAt mapping k g cur).min ≤ i)
    (below : i < (blockAt mapping k g cur).max) :
    ((blockAt mapping k g cur).half mapping .left).addr.Covers (before.getD i 0) := by
  obtain ⟨levels, deep⟩ : ∃ levels, g = cur.length + (levels + 1) :=
    ⟨g - cur.length - 1, by omega⟩
  have first : (blockAt mapping k g cur).min = cur.getPath * 2 ^ (g - cur.length) :=
    Block.min_follow cur (by omega)
  have size := (fits_blockAt mapping k g cur).size (by omega)
  rw [show g - cur.length = levels + 1 by omega] at first
  rw [show g - (0 + cur.length) = levels + 1 by omega] at size
  obtain ⟨path, found, rfl⟩ := @exists_mem_level (levels + 1) cur i (by omega) (by omega)
  have length := length_of_mem_level found
  have covers := Block.covers_of_half .left (readFrom path (mem_level_root (by omega)))
  have reached (s : Side) (found : path ∈ level (s :: cur) levels) :
      ((blockAt mapping k g cur).half mapping .left).addr.Covers (before.getD path.getPath 0) := by
    rw [Block.addr_half mapping _ .left 0, ← Block.addr_half mapping _ s 0]
    exact covers_of_suffix (suffix_of_mem_level found) covers
  rcases List.mem_append.mp found with left | right
  · exact reached .left left
  · exact reached .right right

/-- At a block of several tasks the mapping that was read back decides as the one it was read back
from. -/
theorem choose_of_read (readFrom : ReadFrom k g mapping before) {cur : TaskPath}
    (short : cur.length < g) (inner : (blockAt mapping k g cur).addr.layer ≠ 0) :
    (blockAt mapping k g cur).choose before = (blockAt mapping k g cur).choose mapping := by
  have size := (fits_blockAt mapping k g cur).size (by omega)
  have two : 2 ≤ 2 ^ (g - (0 + cur.length)) := by
    calc 2 = 2 ^ 1 := rfl
      _ ≤ 2 ^ (g - (0 + cur.length)) := Nat.pow_le_pow_right (by omega) (by omega)
  cases chosen : (blockAt mapping k g cur).choose mapping with
  | none =>
    apply Block.choose_eq_none (by omega)
    intro s
    exact beside_of_read readFrom (by omega) inner (Block.beside_of_stay (by omega) chosen s)
  | some s =>
    have beside (i : Nat) (above : (blockAt mapping k g cur).min ≤ i)
        (below : i < (blockAt mapping k g cur).max) :
        Block.Beside (blockAt mapping k g cur).center (before.getD i 0) s :=
      Block.beside_of_covers inner chosen (covers_of_read readFrom short above below)
    have last : (blockAt mapping k g cur).curMax before =
        before.getD ((blockAt mapping k g cur).max - 1) 0 := if_neg (by omega)
    have atMin := beside (blockAt mapping k g cur).min (by omega) (by omega)
    have atMax := beside ((blockAt mapping k g cur).max - 1) (by omega) (by omega)
    unfold Block.choose
    rw [last]
    cases s with
    | left => exact if_pos atMax
    | right => rw [if_neg (Nat.not_lt.mpr atMax), if_pos (show _ ≤ Block.curMin _ _ from atMin)]

/-- Down to the granularity level the mapping that was read back has the blocks of the one it was
read back from. -/
theorem blockAt_of_read (readFrom : ReadFrom k g mapping before) {path : TaskPath}
    (short : path.length ≤ g) : blockAt before k g path = blockAt mapping k g path := by
  induction path with
  | nil => rfl
  | cons s path ih =>
    have shorter : path.length < g := short
    have same := ih (Nat.le_of_lt shorter)
    have turn : (overlay 0).turn (blockAt mapping k g path).addr
        ((blockAt mapping k g path).choose before) =
      (overlay 0).turn (blockAt mapping k g path).addr
        ((blockAt mapping k g path).choose mapping) := by
      by_cases low : (blockAt mapping k g path).addr.layer = 0
      · rw [LayeredTree.turn_of_leaf low, LayeredTree.turn_of_leaf low]
      · rw [choose_of_read readFrom shorter low]
    show (blockAt before k g path).half before s = (blockAt mapping k g path).half mapping s
    rw [same]
    unfold Block.half
    rw [turn]

/-- A policy of a mapping that was read back is read back as that mapping. -/
theorem read_again {old : TreeSchedulingPolicy} (before_ : old.Follows k (planOf mapping k g))
    (granularity_ : old.granularity = g) {fuel : Nat}
    (read : old.taskDistributionMapping fuel = some before)
    (follows : policy.Follows k (planOf before k g)) (granularity : policy.granularity = g)
    {more : Nat} (enough : g + k < more) :
    policy.taskDistributionMapping more = some before := by
  have readFrom := readFrom_of_read before_ granularity_ read
  have tasks : before.length = 2 ^ g := granularity_ ▸ length_taskDistributionMapping read
  obtain ⟨fewer, rfl⟩ : ∃ fewer, more = fewer + 1 := ⟨more - 1, by omega⟩
  rw [taskDistributionMapping_iff follows granularity tasks (by omega)]
  intro path found
  have length := length_of_mem_level found
  rw [show TaskPath.root.length = 0 from rfl, Nat.zero_add] at length
  show (blockAt before k g path).addr.Covers _
  rw [blockAt_of_read readFrom (Nat.le_of_eq length)]
  exact Block.covers_of_half .left (readFrom path found)

/-! ## Ranks -/

/-- A turn leads to a node whose first rank is a rank of the network. -/
theorem rank_blockAt_lt {size : Nat} (nodes : 0 < size) (tasks : mapping.length = 2 ^ g)
    (ranks : ∀ rank ∈ mapping, rank < size) (path : TaskPath) :
    (blockAt mapping k g path).addr.rank < size := by
  induction path with
  | nil => exact nodes
  | cons s path ih =>
    show ((blockAt mapping k g path).half mapping s).addr.rank < size
    rw [Block.addr_half mapping _ s 0]
    by_cases low : (blockAt mapping k g path).addr.layer = 0
    · rwa [LayeredTree.turn_of_leaf low]
    · cases chosen : (blockAt mapping k g path).choose mapping with
      | none => exact ih
      | some t =>
        rw [LayeredTree.turn_of_inner low]
        cases t with
        | left => exact ih
        | right =>
          have first := ranks _ (curMin_follow_mem (k := k) tasks path)
          obtain ⟨-, center⟩ := Block.two_mul_half low
          have upper : (blockAt mapping k g path).center ≤
              (blockAt mapping k g path).curMin mapping := by
            unfold Block.choose at chosen
            split at chosen
            · cases chosen
            · split at chosen
              · assumption
              · cases chosen
          show (blockAt mapping k g path).addr.rank +
            1 <<< ((blockAt mapping k g path).addr.layer - 1) < size
          rw [Nat.shiftLeft_eq, Nat.one_mul, ← center]
          exact Nat.lt_of_le_of_lt upper first

/-- Every trace in a policy of a mapping onto ranks of the network ends on a rank of the network. -/
theorem traceTarget_lt {size : Nat} (nodes : 0 < size) (tasks : mapping.length = 2 ^ g)
    (ranks : ∀ rank ∈ mapping, rank < size) (follows : policy.Follows k (planOf mapping k g))
    {fuel rank : Nat} {path : TaskPath} (traced : policy.traceTarget fuel path = some rank) :
    rank < size := by
  induction fuel generalizing path with
  | zero => cases traced
  | succ fuel ih =>
    have target : (overlay k).target (planOf mapping k g) path =
        (blockAt mapping k g (.left :: path)).addr := spot_planOf mapping k g (.left :: path)
    rw [traceTarget, follows.getTarget_eq, target] at traced
    simp only [Option.bind_eq_bind, Option.bind_some] at traced
    split at traced
    · obtain rfl := Option.some.inj traced
      exact rank_blockAt_lt nodes tasks ranks (.left :: path)
    · exact ih traced

end TreeSchedulingPolicy

end AllScale
