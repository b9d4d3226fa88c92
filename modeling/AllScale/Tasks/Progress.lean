import Mathlib.Algebra.Order.BigOperators.Group.List
import Mathlib.Data.Finset.Max
import Mathlib.Data.List.Lex
import AllScale.Tasks.Execution
import AllScale.Tasks.PackedPath

/-!
# Progress of the execution

A work item that has been executed waits for its children, and one that is about to be processed
waits for the items it depends on. When every item depends only on items that come before it in the
order of the sequential program, the waits cannot form a circle, so some item can always go on. The
cut-off of the splits bounds how many items there are and how many steps they take.
-/

namespace AllScale

open TokenTree Transition

namespace Execution

variable {C R : Type} {description : WorkItemDescription C R}
variable {items items' : List (WorkItemImpl C R)} {item : WorkItemImpl C R}
variable {action : ExecutionAction C} {status : ItemStatus R} {spawned : List (WorkItemImpl C R)}

/-! ## Program order -/

/-- The place of an item in the order in which the sequential program finishes its items: by the
roots, and within a tree by the path, where an item comes after all items below it. -/
def place (origin : Origin C) : List Nat :=
  origin.root :: (origin.path.reverse.map PackedPath.bit ++ [2])

/-- The items that are waited for come before the waiting one in program order: those that it
depends on before it is processed, and those that its variant has given to `treeture_combine`. -/
def InProgramOrder (items : List (WorkItemImpl C R)) : Prop :=
  ∀ (i : Nat) (item : WorkItemImpl C R), items[i]? = some item →
    (∀ j ∈ item.origin.dep, ∀ other : WorkItemImpl C R, items[j]? = some other →
      place other.origin < place item.origin) ∧
    ∀ split children awaits, item.status = .executed split children awaits →
      ∀ j ∈ awaits, ∀ other : WorkItemImpl C R, items[j]? = some other →
        place other.origin < place item.origin

/-- An item comes after its children. -/
theorem place_child {parent child : Origin C} {s : Side} (tree : child.root = parent.root)
    (below : child.path = s :: parent.path) : place child < place parent := by
  rw [place, place, tree, below, List.reverse_cons, List.map_append, List.append_assoc]
  apply List.cons_lt_cons_iff.mpr
  refine Or.inr ⟨rfl, List.append_left_lt ?_⟩
  have bound := PackedPath.bit_le s
  exact List.cons_lt_cons_iff.mpr (Or.inl (by omega))

/-! ## Links between items -/

/-- The items that an item waits for exist, and its children come before it. -/
structure Linked (items : List (WorkItemImpl C R)) (item : WorkItemImpl C R) : Prop where
  /-- The items of `dep_`. -/
  dep : ∀ j ∈ item.origin.dep, j < items.length
  /-- The children of the variant. -/
  children : ∀ split children awaits, item.status = .executed split children awaits →
    ∀ j ∈ children, ∃ child, items[j]? = some child ∧ place child.origin < place item.origin
  /-- The items that `treeture_combine` was given. -/
  awaits : ∀ split children awaits, item.status = .executed split children awaits →
    ∀ j ∈ awaits, j < items.length

/-- All items are linked. -/
def AllLinked (items : List (WorkItemImpl C R)) : Prop :=
  ∀ (i : Nat) (item : WorkItemImpl C R), items[i]? = some item → Linked items item

/-- Extending the items keeps what they were created with. -/
theorem Extends.exists_origin {i : Nat} (extended : Extends items items')
    (found : items[i]? = some item) :
    ∃ item', items'[i]? = some item' ∧ item'.origin = item.origin := by
  obtain ⟨rest, same⟩ := extended
  have before : (items.map (·.origin))[i]? = some item.origin := by
    rw [List.getElem?_map, found]
    rfl
  have inside := (List.getElem?_eq_some_iff.mp before).1
  have after : (items'.map (·.origin))[i]? = some item.origin := by
    rw [← same, List.getElem?_append_left inside, before]
  rw [List.getElem?_map] at after
  exact Option.map_eq_some_iff.mp after

/-- Extending the items does not drop any. -/
theorem Extends.length_le (extended : Extends items items') : items.length ≤ items'.length := by
  have shorter := List.IsPrefix.length_le extended
  rwa [List.length_map, List.length_map] at shorter

/-- New items and changes of other items leave an item linked. -/
theorem Linked.mono (linked : Linked items item) (extended : Extends items items') :
    Linked items' item where
  dep j found := Nat.lt_of_lt_of_le (linked.dep j found) extended.length_le
  children split children awaits executed j found := by
    obtain ⟨child, here, before⟩ := linked.children split children awaits executed j found
    obtain ⟨child', there, same⟩ := extended.exists_origin here
    exact ⟨child', there, by rwa [same]⟩
  awaits split children awaits executed j found :=
    Nat.lt_of_lt_of_le (linked.awaits split children awaits executed j found) extended.length_le

/-- A variant spawns as many children as it has closures. -/
theorem length_spawnChildren {parent : Origin C} {next pos : Nat} {calls : List (C × List Nat)}
    (spawns : spawnChildren parent next pos calls = some spawned) :
    spawned.length = calls.length := by
  have all := congrArg List.length (closures_spawnChildren spawns)
  rwa [List.length_map, List.length_map] at all

/-- The children of a variant depend on items that exist when they are spawned. -/
theorem dep_spawnChildren {parent : Origin C} {next pos : Nat} {calls : List (C × List Nat)}
    (spawns : spawnChildren parent next pos calls = some spawned) {child : WorkItemImpl C R}
    (found : child ∈ spawned) : ∀ j ∈ child.origin.dep, j < next + pos + spawned.length := by
  induction calls generalizing pos spawned with
  | nil =>
    cases spawns
    cases found
  | cons call calls ih =>
    obtain ⟨closure, dep⟩ := call
    simp only [spawnChildren, Option.bind_eq_bind, Option.bind_eq_some_iff] at spawns
    obtain ⟨path, place, later, rest, spawns⟩ := spawns
    split at spawns
    · rename_i known
      cases spawns
      intro j held
      rw [List.length_cons]
      rcases List.mem_cons.mp found with rfl | found
      · have bound : j < next + pos := of_decide_eq_true (List.all_eq_true.mp known j held)
        omega
      · have bound := ih rest found j held
        omega
    · cases spawns

/-- Steps keep all items linked. -/
theorem linked_of_step (all : AllLinked items)
    (taken : step description items action = some items') : AllLinked items' := by
  intro j other there
  have extended := extends_of_step taken
  rcases step_cases taken with
    ⟨closure, dep, -, known, rfl⟩ | ⟨i, item, status, spawned, found, change, rfl⟩
  · rw [List.getElem?_append] at there
    split at there
    · exact (all j other there).mono extended
    · have last := List.mem_singleton.mp (List.mem_of_getElem? there)
      subst last
      refine ⟨fun k held => ?_, by simp, by simp⟩
      exact Nat.lt_of_lt_of_le (known k held) extended.length_le
  · rcases getElem?_changed there with ⟨-, rfl⟩ | ⟨-, before⟩ | new
    · have linked := (all i item found).mono extended
      cases change with
      | scheduleLocal => exact ⟨linked.dep, by simp, by simp⟩
      | acquire => exact ⟨linked.dep, by simp, by simp⟩
      | finalize => exact ⟨linked.dep, by simp, by simp⟩
      | @execute _ deps awaits split spawned before depended arity known spawns =>
        have count := length_spawnChildren spawns
        rw [List.length_zip, arity, Nat.min_self] at count
        refine ⟨linked.dep, fun split children awaits executed k held => ?_,
          fun split children awaits executed k held => ?_⟩
        · cases executed
          obtain ⟨low, high⟩ := List.mem_range'_1.mp held
          have inside : k - items.length < spawned.length := by omega
          have child := List.getElem?_eq_getElem inside
          obtain ⟨-, tree, s, below⟩ := mem_spawnChildren spawns (List.getElem_mem inside)
          refine ⟨_, ?_, place_child tree below⟩
          rw [List.getElem?_append_right (by rwa [List.length_set]), List.length_set]
          exact child
        · cases executed
          have bound := known k held
          rw [List.length_append, List.length_set]
          omega
    · exact (all j other before).mono extended
    · cases change with
      | scheduleLocal => cases new
      | acquire => cases new
      | finalize => cases new
      | execute before depended arity known spawns =>
        have enqueued := (mem_spawnChildren spawns new).1
        refine ⟨fun k held => ?_, by simp [enqueued], by simp [enqueued]⟩
        have bound := dep_spawnChildren spawns new k held
        rw [List.length_append, List.length_set]
        omega

/-! ## No deadlock -/

/-- An item can go on: whatever its scheduler decides, and whatever treetures of existing items its
variant passes on, its next step can be taken. -/
def Proceeds (description : WorkItemDescription C R) (items : List (WorkItemImpl C R)) (i : Nat)
    (item : WorkItemImpl C R) : Prop :=
  match item.status with
  | .enqueued => ∀ depthCutOff,
    (step description items (.scheduleLocal i depthCutOff)).isSome
  | .acquiring _ => (step description items (.acquire i)).isSome
  | .acquired split => ∀ deps awaits,
    deps.length = (description.variant split item.origin.closure).children.length →
    (∀ k dep, deps[k]? = some dep → ∀ j ∈ dep, j < items.length + k) →
    (∀ j ∈ awaits, j < items.length +
      (description.variant split item.origin.closure).children.length) →
    (step description items (.execute i deps awaits)).isSome
  | .executed _ _ _ => (step description items (.finalize i)).isSome
  | .ready _ => False

/-- A variant can always spawn its children, as it has two at most. -/
theorem exists_spawnChildren {parent : Origin C} {next pos : Nat} {calls : List (C × List Nat)}
    (binary : pos + calls.length ≤ 2)
    (known : ∀ k call, calls[k]? = some call → ∀ j ∈ call.2, j < next + pos + k) :
    ∃ spawned : List (WorkItemImpl C R), spawnChildren parent next pos calls = some spawned := by
  induction calls generalizing pos with
  | nil => exact ⟨[], rfl⟩
  | cons call calls ih =>
    obtain ⟨closure, dep⟩ := call
    rw [List.length_cons] at binary
    obtain ⟨path, place⟩ : ∃ path, childPath parent.path pos = some path := by
      match pos, binary with
      | 0, _ => exact ⟨_, rfl⟩
      | 1, _ => exact ⟨_, rfl⟩
      | pos + 2, binary => omega
    obtain ⟨later, rest⟩ := @ih (pos + 1) (by omega) fun k call found j held => by
      have bound := known (k + 1) call found j held
      omega
    have first : dep.all (· < next + pos) = true := by
      rw [List.all_eq_true]
      exact fun j held => decide_eq_true (known 0 (closure, dep) rfl j held)
    rw [spawnChildren]
    simp only [place, rest, first, Option.bind_eq_bind, Option.bind_some, if_true]
    exact ⟨_, rfl⟩

/-- Items that are ready have values. -/
theorem exists_mapM_getValue {children : List Nat}
    (ready : ∀ j ∈ children, ∃ value, getValue items j = some value) :
    ∃ values, children.mapM (getValue items) = some values := by
  induction children with
  | nil => exact ⟨[], rfl⟩
  | cons child children ih =>
    obtain ⟨value, here⟩ := ready child List.mem_cons_self
    obtain ⟨values, rest⟩ := ih fun j found => ready j (List.mem_cons_of_mem _ found)
    refine ⟨value :: values, ?_⟩
    simp only [List.mapM_cons, here, rest, Option.bind_eq_bind, Option.bind_some]
    rfl

/-- An item proceeds when all items that come before it are ready. -/
theorem proceeds_of_first (linked : Linked items item) {i : Nat}
    (found : items[i]? = some item)
    (ordered : (∀ j ∈ item.origin.dep, ∀ other : WorkItemImpl C R, items[j]? = some other →
        place other.origin < place item.origin) ∧
      ∀ split children awaits, item.status = .executed split children awaits →
        ∀ j ∈ awaits, ∀ other : WorkItemImpl C R, items[j]? = some other →
          place other.origin < place item.origin)
    (unfinished : ∀ value, item.status ≠ .ready value)
    (first : ∀ (j : Nat) (other : WorkItemImpl C R), items[j]? = some other →
      place other.origin < place item.origin → ∃ value, getValue items j = some value) :
    Proceeds description items i item := by
  -- the items of a list that come before the item are ready
  have ready {waits : List Nat} (known : ∀ j ∈ waits, j < items.length)
      (before : ∀ j ∈ waits, ∀ other : WorkItemImpl C R, items[j]? = some other →
        place other.origin < place item.origin) : allReady items waits = true := by
    rw [allReady, List.all_eq_true]
    intro j held
    have here := List.getElem?_eq_getElem (known j held)
    obtain ⟨value, ready⟩ := first j _ here (before j held _ here)
    rw [ready]
    rfl
  rw [Proceeds]
  cases status : item.status with
  | enqueued =>
    intro depthCutOff
    simp [step, found, scheduleLocal, status]
  | acquiring split => simp [step, found, acquire, status]
  | acquired split =>
    intro deps awaits arity known given
    have depended : (split || allReady items item.origin.dep) = true := by
      rw [ready linked.dep ordered.1, Bool.or_true]
    have waited : awaits.all (· < items.length +
        (description.variant split item.origin.closure).children.length) = true := by
      rw [List.all_eq_true]
      exact fun j held => decide_eq_true (given j held)
    have binary := (description.variant split item.origin.closure).binary
    obtain ⟨spawned, spawns⟩ : ∃ spawned : List (WorkItemImpl C R),
        spawnChildren item.origin items.length 0
          ((description.variant split item.origin.closure).children.zip deps) = some spawned := by
      apply exists_spawnChildren
      · rw [List.length_zip, arity]
        omega
      · intro k call pair j held
        have second := (List.getElem?_zip_eq_some.mp pair).2
        exact known k call.2 second j held
    simp only [step, found, execute, status, arity, spawns, Option.bind_eq_bind, Option.bind_some]
    rw [if_pos ⟨depended, trivial, waited⟩]
    rfl
  | executed split children awaits =>
    obtain ⟨values, collects⟩ := exists_mapM_getValue fun j held => by
      obtain ⟨child, here, before⟩ := linked.children split children awaits status j held
      exact first j child here before
    have awaited := ready (linked.awaits split children awaits status)
      (ordered.2 split children awaits status)
    simp [step, found, finalize, status, collects, awaited]
  | ready value => exact unfinished value status

/-- No deadlock: in every run whose dependencies follow program order, as long as some treeture is
not ready, there is an item that can go on, whatever its scheduler decides and whatever dependencies
its variant passes on. -/
theorem proceeds_of_run {history : List (List (WorkItemImpl C R) × ExecutionAction C)}
    (run : (executing description).Run history items) (ordered : InProgramOrder items) :
    (∀ (i : Nat) (item : WorkItemImpl C R), items[i]? = some item →
      ∃ value, item.status = .ready value) ∨
    ∃ (i : Nat) (item : WorkItemImpl C R), items[i]? = some item ∧
      Proceeds description items i item := by
  have linked := run.invariant (P := AllLinked) (by simp [AllLinked, executing])
    fun before taken => linked_of_step before taken
  by_cases finished : ∀ (i : Nat) (item : WorkItemImpl C R), items[i]? = some item →
      ∃ value, item.status = .ready value
  · exact Or.inl finished
  · -- among the items that are not ready, take the first one in program order
    right
    let waiting : Finset Nat := (Finset.range items.length).filter fun i => getValue items i = none
    let key (i : Nat) : List Nat := (items[i]?.map fun item => place item.origin).getD []
    have unready {i : Nat} {item : WorkItemImpl C R} (found : items[i]? = some item) :
        (∀ value, item.status ≠ .ready value) ↔ i ∈ waiting := by
      have inside := (List.getElem?_eq_some_iff.mp found).1
      have shown : getValue items i = item.status.value := by rw [getValue, found, Option.bind_some]
      rw [Finset.mem_filter, Finset.mem_range, shown]
      cases item.status <;> simp [ItemStatus.value, inside]
    obtain ⟨j, other, there, unfinished⟩ : ∃ (j : Nat) (other : WorkItemImpl C R),
        items[j]? = some other ∧ ∀ value, other.status ≠ .ready value := by
      simp only [not_forall, not_exists] at finished
      obtain ⟨j, other, there, unfinished⟩ := finished
      exact ⟨j, other, there, unfinished⟩
    obtain ⟨i, held, least⟩ :=
      Finset.exists_min_image waiting key ⟨j, (unready there).mp unfinished⟩
    have inside := Finset.mem_range.mp (Finset.mem_filter.mp held).1
    have found := List.getElem?_eq_getElem inside
    refine ⟨i, _, found, proceeds_of_first (linked i _ found) found (ordered i _ found)
      ((unready found).mpr held) fun k earlier here before => ?_⟩
    -- what comes before the first waiting item does not wait
    by_contra unfinished
    have pending : k ∈ waiting := by
      refine Finset.mem_filter.mpr ⟨?_, ?_⟩
      · exact Finset.mem_range.mpr (List.getElem?_eq_some_iff.mp here).1
      · exact Option.eq_none_iff_forall_ne_some.mpr fun value ready => unfinished ⟨value, ready⟩
    have later := least k pending
    simp only [key, found, here, Option.map_some, Option.getD_some] at later
    exact absurd before (not_lt.mpr later)

/-- The fourth Fibonacci number, split once, with a second child that waits for the first. -/
def splitFibonacci : List (WorkItemImpl Nat Nat) :=
  [⟨⟨0, [], 4, []⟩, .executed true [1, 2] []⟩, ⟨⟨0, [.left], 3, []⟩, .enqueued⟩,
    ⟨⟨0, [.right], 2, [1]⟩, .acquired false⟩]

/-- The steps that lead to the split Fibonacci number. -/
theorem exists_run_splitFibonacci :
    ∃ history, (executing fibonacciWork).Run history splitFibonacci ∧ history.map Prod.snd =
      [.acquire 2, .scheduleLocal 2 1, .execute 0 [[], [1]] [], .acquire 0, .scheduleLocal 0 1,
        .spawnFirst 4 []] := by
  have computed : [.spawnFirst 4 [], .scheduleLocal 0 1, .acquire 0, .execute 0 [[], [1]] [],
      .scheduleLocal 2 1, .acquire 2].foldlM (step fibonacciWork) [] = some splitFibonacci := rfl
  exact (System.Run.start (S := executing fibonacciWork)).exists_of_foldlM id _ computed

/-- The split Fibonacci number can go on. -/
theorem proceeds_of_run_fibonacci :
    (∀ (i : Nat) (item : WorkItemImpl Nat Nat), splitFibonacci[i]? = some item →
      ∃ value, item.status = .ready value) ∨
    ∃ (i : Nat) (item : WorkItemImpl Nat Nat), splitFibonacci[i]? = some item ∧
      Proceeds fibonacciWork splitFibonacci i item := by
  obtain ⟨history, run, -⟩ := exists_run_splitFibonacci
  refine proceeds_of_run run fun i item found => ?_
  match i, found with
  | 0, found =>
    cases found
    exact ⟨by simp, fun _ _ _ executed => by cases executed; simp⟩
  | 1, found =>
    cases found
    exact ⟨by simp, fun _ _ _ executed => by cases executed⟩
  | 2, found =>
    cases found
    refine ⟨fun j held other there => ?_, fun _ _ _ executed => by cases executed⟩
    obtain rfl := List.mem_singleton.mp held
    cases there
    decide

/-! ## A bound on the work -/

/-- The items of a tree whose splits end at a depth, from an item at another depth on. -/
def treeSize (cutOff depth : Nat) : Nat := 2 ^ (cutOff + 1 - depth) - 1

/-- A split tree is its root and two trees that are one level lower. -/
theorem treeSize_split {cutOff depth : Nat} (above : depth < cutOff) :
    treeSize cutOff depth = 2 * treeSize cutOff (depth + 1) + 1 := by
  have level : cutOff + 1 - depth = (cutOff + 1 - (depth + 1)) + 1 := by omega
  have positive := Nat.two_pow_pos (cutOff + 1 - (depth + 1))
  rw [treeSize, treeSize, level, Nat.pow_succ]
  omega

/-- The tree of an item that is not too deep holds the item. -/
theorem treeSize_pos {cutOff depth : Nat} (inside : depth ≤ cutOff) :
    0 < treeSize cutOff depth := by
  have level : cutOff + 1 - depth = (cutOff - depth) + 1 := by omega
  have positive := Nat.two_pow_pos (cutOff - depth)
  rw [treeSize, level, Nat.pow_succ]
  omega

/-- The steps that are left for an item and all items that may be spawned below it. -/
def stepsLeft (cutOff : Nat) (item : WorkItemImpl C R) : Nat :=
  match item.status with
  | .enqueued => 4 * treeSize cutOff item.origin.path.getLength
  | .acquiring true => 4 * treeSize cutOff item.origin.path.getLength - 1
  | .acquired true => 4 * treeSize cutOff item.origin.path.getLength - 2
  | .acquiring false => 3
  | .acquired false => 2
  | .executed _ _ _ => 1
  | .ready _ => 0

/-- The item and those that may be spawned below it. -/
def itemsLeft (cutOff : Nat) (item : WorkItemImpl C R) : Nat :=
  match item.status with
  | .enqueued => treeSize cutOff item.origin.path.getLength
  | .acquiring true => treeSize cutOff item.origin.path.getLength
  | .acquired true => treeSize cutOff item.origin.path.getLength
  | _ => 1

/-- An item is not deeper than the splits, and not as deep when it is split. -/
def Shallow (cutOff : Nat) (item : WorkItemImpl C R) : Prop :=
  item.origin.path.getLength ≤ cutOff ∧
    (item.status = .acquiring true ∨ item.status = .acquired true →
      item.origin.path.getLength < cutOff)

/-- All items are shallow. -/
def AllShallow (cutOff : Nat) (items : List (WorkItemImpl C R)) : Prop :=
  ∀ (i : Nat) (item : WorkItemImpl C R), items[i]? = some item → Shallow cutOff item

/-- The cut-off that an action uses is not higher than a bound. -/
def CutsOff (bound : Nat) : ExecutionAction C → Prop
  | .scheduleLocal _ depthCutOff => depthCutOff ≤ bound
  | _ => True

/-- The action spawns a root item. -/
def isSpawnFirst : ExecutionAction C → Bool
  | .spawnFirst _ _ => true
  | _ => false

/-- What all items have together. -/
def total (amount : WorkItemImpl C R → Nat) (items : List (WorkItemImpl C R)) : Nat :=
  (items.map amount).sum

/-- A change of an item and its children change the total by what they have. -/
theorem total_changed (amount : WorkItemImpl C R → Nat) {i : Nat} (found : items[i]? = some item)
    (changed : WorkItemImpl C R) (spawned : List (WorkItemImpl C R)) :
    total amount (items.set i changed ++ spawned) + amount item =
      total amount items + amount changed + total amount spawned := by
  induction items generalizing i with
  | nil => cases found
  | cons first rest ih =>
    cases i with
    | zero =>
      cases found
      simp only [total, List.set_cons_zero, List.cons_append, List.map_cons, List.map_append,
        List.sum_cons, List.sum_append]
      omega
    | succ i =>
      have later := ih (i := i) found
      simp only [total, List.set_cons_succ, List.cons_append, List.map_cons, List.map_append,
        List.sum_cons, List.sum_append] at later ⊢
      omega

/-- Two children at most have twice what one of them has. -/
theorem total_spawned {amount : WorkItemImpl C R → Nat} {bound : Nat} (few : spawned.length ≤ 2)
    (each : ∀ child ∈ spawned, amount child ≤ bound) : total amount spawned ≤ 2 * bound := by
  have sum := List.sum_le_card_nsmul (spawned.map amount) bound fun value found => by
    obtain ⟨child, held, rfl⟩ := List.mem_map.mp found
    exact each child held
  rw [List.length_map] at sum
  change _ ≤ spawned.length * bound at sum
  exact Nat.le_trans sum (Nat.mul_le_mul_right bound few)

/-- The children of a split have a tree that is one level lower. -/
theorem enqueued_child {parent : Origin C} {next : Nat} {calls : List (C × List Nat)}
    (spawns : spawnChildren parent next 0 calls = some spawned) {child : WorkItemImpl C R}
    (found : child ∈ spawned) (cutOff : Nat) :
    stepsLeft cutOff child ≤ 4 * treeSize cutOff (parent.path.getLength + 1) ∧
      itemsLeft cutOff child ≤ treeSize cutOff (parent.path.getLength + 1) := by
  obtain ⟨enqueued, -, s, below⟩ := mem_spawnChildren spawns found
  have deeper : child.origin.path.getLength = parent.path.getLength + 1 := by
    rw [below]
    rfl
  rw [stepsLeft, itemsLeft, enqueued, deeper]
  exact ⟨Nat.le_refl _, Nat.le_refl _⟩

/-- What a step does to the item it is about leaves one step less, and no more items. -/
theorem left_of_change (leaf : ∀ closure, (description.processVariant closure).children = [])
    {cutOff : Nat} (shallow : Shallow cutOff item) (cut : CutsOff cutOff action)
    (change : Change description items item action status spawned) :
    1 + stepsLeft cutOff { item with status := status } + total (stepsLeft cutOff) spawned ≤
        stepsLeft cutOff item ∧
      itemsLeft cutOff { item with status := status } + total (itemsLeft cutOff) spawned ≤
        itemsLeft cutOff item := by
  have positive := treeSize_pos shallow.1
  have none (amount : WorkItemImpl C R → Nat) : total amount [] = 0 := rfl
  cases change with
  | @scheduleLocal i depthCutOff before =>
    rw [none, none]
    simp only [stepsLeft, itemsLeft, before]
    generalize (description.canSplit item.origin.closure &&
      decide (item.origin.path.getLength < depthCutOff)) = split
    cases split <;> simp only <;> omega
  | @acquire i split before =>
    rw [none, none]
    simp only [stepsLeft, itemsLeft, before]
    cases split with
    | true =>
      have deeper := treeSize_split (shallow.2 (Or.inl before))
      simp only
      omega
    | false => simp only; omega
  | @execute i deps awaits split spawned before depended arity known spawns =>
    have count := length_spawnChildren spawns
    rw [List.length_zip, arity, Nat.min_self] at count
    simp only [stepsLeft, itemsLeft, before]
    cases split with
    | true =>
      have deeper := treeSize_split (shallow.2 (Or.inr before))
      have few : spawned.length ≤ 2 := by
        rw [count]
        exact (description.variant true item.origin.closure).binary
      have steps := total_spawned few fun child found =>
        (enqueued_child spawns found cutOff).1
      have news := total_spawned few fun child found =>
        (enqueued_child spawns found cutOff).2
      simp only
      omega
    | false =>
      have closures : (description.variant false item.origin.closure).children = [] :=
        leaf item.origin.closure
      rw [closures, List.length_nil] at count
      rw [List.length_eq_zero_iff.mp count, none, none]
      simp only
      omega
  | finalize before =>
    rw [none, none]
    simp [stepsLeft, itemsLeft, before]

/-- A step keeps the items shallow, when the cut-off stays below the bound. -/
theorem shallow_of_step (leaf : ∀ closure, (description.processVariant closure).children = [])
    {cutOff : Nat} (all : AllShallow cutOff items) (cut : CutsOff cutOff action)
    (taken : step description items action = some items') : AllShallow cutOff items' := by
  intro j other there
  rcases step_cases taken with
    ⟨closure, dep, -, -, rfl⟩ | ⟨i, item, status, spawned, found, change, rfl⟩
  · rw [List.getElem?_append] at there
    split at there
    · exact all j other there
    · have last := List.mem_singleton.mp (List.mem_of_getElem? there)
      subst last
      exact ⟨Nat.zero_le _, by simp⟩
  · have shallow := all i item found
    rcases getElem?_changed there with ⟨-, rfl⟩ | ⟨-, before⟩ | new
    · refine ⟨shallow.1, fun split => ?_⟩
      cases change with
      | @scheduleLocal i depthCutOff before =>
        simp only [ItemStatus.acquiring.injEq, Bool.and_eq_true, decide_eq_true_eq, reduceCtorEq,
          or_false] at split
        exact Nat.lt_of_lt_of_le split.2 cut
      | @acquire i split' before =>
        simp only [ItemStatus.acquired.injEq, reduceCtorEq, false_or] at split
        exact shallow.2 (Or.inl (by rw [before, split]))
      | execute => simp at split
      | finalize => simp at split
    · exact all j other before
    · cases change with
      | scheduleLocal => cases new
      | acquire => cases new
      | finalize => cases new
      | @execute i deps awaits split spawned before depended arity known spawns =>
        obtain ⟨enqueued, -, s, below⟩ := mem_spawnChildren spawns new
        refine ⟨?_, by simp [enqueued]⟩
        cases split with
        | true =>
          have above := shallow.2 (Or.inr before)
          rw [TaskPath.getLength] at above ⊢
          rw [below, List.length_cons]
          exact above
        | false =>
          have closures : (description.variant false item.origin.closure).children = [] :=
            leaf item.origin.closure
          have count := length_spawnChildren spawns
          rw [closures, List.zip_nil_left, List.length_nil] at count
          rw [List.length_eq_zero_iff.mp count] at new
          cases new

/-- Every item counts itself. -/
theorem length_le_total {cutOff : Nat} (all : AllShallow cutOff items) :
    items.length ≤ total (itemsLeft cutOff) items := by
  have each : ∀ item ∈ items, 1 ≤ itemsLeft cutOff item := by
    intro item found
    obtain ⟨i, here⟩ := List.mem_iff_getElem?.mp found
    have positive := treeSize_pos (all i item here).1
    rw [itemsLeft]
    split <;> omega
  clear all
  induction items with
  | nil => exact Nat.le_refl _
  | cons item rest ih =>
    have first := each item List.mem_cons_self
    have later := ih fun other found => each other (List.mem_cons_of_mem _ found)
    simp only [total, List.map_cons, List.sum_cons, List.length_cons] at later ⊢
    omega

/-- What is left after a step: a root adds its tree, every other step takes one away. -/
theorem total_of_step (leaf : ∀ closure, (description.processVariant closure).children = [])
    {cutOff : Nat} (all : AllShallow cutOff items) (cut : CutsOff cutOff action)
    (taken : step description items action = some items') :
    (isSpawnFirst action = true ∧
      total (stepsLeft cutOff) items' = total (stepsLeft cutOff) items + 4 * treeSize cutOff 0 ∧
      total (itemsLeft cutOff) items' = total (itemsLeft cutOff) items + treeSize cutOff 0) ∨
    (isSpawnFirst action = false ∧
      total (stepsLeft cutOff) items' + 1 ≤ total (stepsLeft cutOff) items ∧
      total (itemsLeft cutOff) items' ≤ total (itemsLeft cutOff) items) := by
  rcases step_cases taken with
    ⟨closure, dep, rfl, -, rfl⟩ | ⟨i, item, status, spawned, found, change, rfl⟩
  · refine Or.inl ⟨rfl, ?_, ?_⟩ <;> rw [total, total, List.map_append, List.sum_append] <;> rfl
  · have spawns : isSpawnFirst action = false := by cases change <;> rfl
    obtain ⟨steps, news⟩ := left_of_change leaf (all i item found) cut change
    have before := total_changed (stepsLeft cutOff) found { item with status := status } spawned
    have after := total_changed (itemsLeft cutOff) found { item with status := status } spawned
    exact Or.inr ⟨spawns, by omega, by omega⟩

/-- Bounded work: in every run in which the cut-offs stay below a bound and processing an item
spawns nothing, the items of a root are no more than a full tree of that depth has nodes, and each
of them takes four steps at most. -/
theorem work_le_of_run (leaf : ∀ closure, (description.processVariant closure).children = [])
    {cutOff : Nat} {history : List (List (WorkItemImpl C R) × ExecutionAction C)}
    (run : (executing description).Run history items)
    (cuts : System.Meets (fun _ action => CutsOff cutOff action) history) :
    items.length ≤ history.countP (isSpawnFirst ·.2) * (2 ^ (cutOff + 1) - 1) ∧
      history.length ≤ history.countP (isSpawnFirst ·.2) * (4 * (2 ^ (cutOff + 1) - 1) + 1) := by
  have tree : treeSize cutOff 0 = 2 ^ (cutOff + 1) - 1 := rfl
  rw [← tree]
  have left : AllShallow cutOff items ∧
      total (itemsLeft cutOff) items ≤
        history.countP (isSpawnFirst ·.2) * treeSize cutOff 0 ∧
      history.length + total (stepsLeft cutOff) items ≤
        history.countP (isSpawnFirst ·.2) * (4 * treeSize cutOff 0 + 1) := by
    induction run with
    | start => exact ⟨by simp [AllShallow, executing], Nat.zero_le _, Nat.zero_le _⟩
    | @step history items items' action earlier taken ih =>
      obtain ⟨all, news, steps⟩ := ih fun state found => cuts state (List.mem_cons_of_mem _ found)
      have cut : CutsOff cutOff action := cuts _ List.mem_cons_self
      refine ⟨shallow_of_step leaf all cut taken, ?_⟩
      rw [List.countP_cons, List.length_cons]
      rcases total_of_step leaf all cut taken with
        ⟨spawn, steps', news'⟩ | ⟨spawn, steps', news'⟩
      · simp only [spawn, if_true, Nat.add_mul]
        omega
      · simp only [spawn, Bool.false_eq_true, if_false, Nat.add_zero]
        omega
  exact ⟨Nat.le_trans (length_le_total left.1) left.2.1, by omega⟩

/-- The work for the split Fibonacci number. -/
theorem work_le_of_run_fibonacci :
    splitFibonacci.length ≤ 1 * (2 ^ (1 + 1) - 1) ∧ 6 ≤ 1 * (4 * (2 ^ (1 + 1) - 1) + 1) := by
  obtain ⟨history, run, actions⟩ := exists_run_splitFibonacci
  have roots : history.countP (isSpawnFirst ·.2) = 1 := by
    rw [show (fun taken : _ × ExecutionAction Nat => isSpawnFirst taken.2) =
      isSpawnFirst ∘ Prod.snd from rfl, ← List.countP_map, actions]
    rfl
  have steps : history.length = 6 := by
    rw [← List.length_map Prod.snd, actions]
    rfl
  have cuts : System.Meets (fun _ action => CutsOff 1 action) history := by
    intro taken found
    have held := List.mem_map_of_mem (f := Prod.snd) found
    rw [actions] at held
    simp only [List.mem_cons, List.not_mem_nil, or_false] at held
    rcases held with action | action | action | action | action | action <;> rw [action] <;>
      simp [CutsOff]
  have bound := work_le_of_run (fun _ => rfl) run cuts
  rwa [roots, steps] at bound

end Execution

end AllScale
