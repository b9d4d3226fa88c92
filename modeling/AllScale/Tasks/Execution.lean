import AllScale.Lib.Run
import AllScale.SchedulePolicy.Dispatch

/-!
# The execution of work items

A work item is split or processed, as its scheduler decides when it arrives. Either variant may
spawn children, and the treeture of the item becomes ready when those of the children are. Items
that have been enqueued, acquired or executed go on in any order, on any locality, and the depth at
which the splits end changes while they run. Whatever the order and the splits, a treeture that
becomes ready has the value that processing the closure sequentially would give.
-/

namespace AllScale

open TokenTree Transition

/-- What executing a variant of a work item does: it spawns children, at most two as a work item has
two child ids, and makes its result of theirs. -/
structure Spawning (C R : Type) where
  /-- The closures of the children, in the order of the calls of `spawn`. -/
  children : List C
  /-- The result, once the treetures of the children are ready. -/
  combine : List R → R
  /-- `task_id::create_child` gives a left and a right child. -/
  binary : children.length ≤ 2

/-- `work_item_description`. -/
structure WorkItemDescription (C R : Type) where
  /-- `can_split_variant::call`, for a split variant that is valid. -/
  canSplit : C → Bool
  /-- `split_variant::execute`. -/
  splitVariant : C → Spawning C R
  /-- `process_variant::execute`. -/
  processVariant : C → Spawning C R

namespace WorkItemDescription

variable {C R : Type} (description : WorkItemDescription C R)

/-- The variant that is executed. -/
def variant (split : Bool) : C → Spawning C R :=
  if split then description.splitVariant else description.processVariant

/-- The sequential meaning of a closure: it is processed, and so are all of its children; `fuel`
bounds their depth. -/
def evaluate : (fuel : Nat) → C → Option R
  | 0, _ => none
  | fuel + 1, closure => do
    let values ← (description.processVariant closure).children.mapM (evaluate fuel)
    some ((description.processVariant closure).combine values)

/-- Splitting means the same as processing. -/
def Agrees : Prop :=
  ∀ closure, description.canSplit closure = true → ∀ fuel values,
    (description.splitVariant closure).children.mapM (description.evaluate fuel) = some values →
    ∃ fuel', description.evaluate fuel' closure =
      some ((description.splitVariant closure).combine values)

end WorkItemDescription

/-! ## Work items -/

/-- What a work item is created with. -/
structure Origin (C : Type) where
  /-- The number of the root item of its tree. -/
  root : Nat
  /-- Its place below the root item. -/
  path : TaskPath
  /-- `closure_`. -/
  closure : C
  /-- The items whose treetures it waits for before it is processed: those of `dep_`, and those of
  the `deps` of its process variant. -/
  dep : List Nat

/-- How far a work item has come. -/
inductive ItemStatus (R : Type) where
  /-- It is on its way through the schedulers. -/
  | enqueued
  /-- `schedule_local` has asked for the regions that it requires. -/
  | acquiring (split : Bool)
  /-- It has the regions. -/
  | acquired (split : Bool)
  /-- The variant has been executed; its future waits for the treetures of the children, and for
  those that `treeture_combine` was given as dependencies. -/
  | executed (split : Bool) (children awaits : List Nat)
  /-- `finalize` has released the regions and set the treeture. -/
  | ready (value : R)

/-- `work_item_impl`. -/
structure WorkItemImpl (C R : Type) where
  /-- What it was created with. -/
  origin : Origin C
  /-- How far it has come. -/
  status : ItemStatus R

/-- The value of a treeture that is ready. -/
def ItemStatus.value {R : Type} : ItemStatus R → Option R
  | .ready value => some value
  | _ => none

/-- What the schedulers and the executors do next. -/
inductive ExecutionAction (C : Type) where
  /-- `spawn_first_with_dependencies`. -/
  | spawnFirst (closure : C) (dep : List Nat)
  /-- `scheduler::schedule_local` for an item, with the cut-off of its locality. -/
  | scheduleLocal (i : Nat) (depthCutOff : Nat)
  /-- The future of `acquire_split` or `acquire_process` becomes ready. -/
  | acquire (i : Nat)
  /-- `do_split` or `do_process`; the variant passes on treetures that it knows, to each child and
  to `treeture_combine`. -/
  | execute (i : Nat) (deps : List (List Nat)) (awaits : List Nat)
  /-- The callback of `finalize`. -/
  | finalize (i : Nat)

namespace Execution

variable {C R : Type} (description : WorkItemDescription C R)

/-- The value of the treeture of an item, once it is ready. -/
def getValue (items : List (WorkItemImpl C R)) (i : Nat) : Option R :=
  items[i]?.bind (·.status.value)

/-- `future::is_ready` of the treetures of some items. -/
def allReady (items : List (WorkItemImpl C R)) (waits : List Nat) : Bool :=
  waits.all fun i => (getValue items i).isSome

/-- The path of `task_id::create_child` for a value of `num_children`; `none` is the assertion. -/
def childPath (path : TaskPath) : (pos : Nat) → Option TaskPath
  | 0 => some path.getLeftChildPath
  | 1 => some path.getRightChildPath
  | _ => none

/-- The calls of `spawn` in a variant; `next` is the number of the item that is created next. -/
def spawnChildren (parent : Origin C) (next : Nat) :
    (pos : Nat) → List (C × List Nat) → Option (List (WorkItemImpl C R))
  | _, [] => some []
  | pos, (closure, dep) :: rest => do
    let path ← childPath parent.path pos
    let later ← spawnChildren parent next (pos + 1) rest
    if dep.all (· < next + pos) then
      some (⟨⟨parent.root, path, closure, dep⟩, .enqueued⟩ :: later)
    else none

/-- `scheduler::schedule_local`, up to the call of `acquire_split` or `acquire_process`. -/
def scheduleLocal (item : WorkItemImpl C R) (depthCutOff : Nat) : Option (ItemStatus R) :=
  match item.status with
  | .enqueued =>
    let work : ScheduledWork :=
      ⟨item.origin.path, true, description.canSplit item.origin.closure⟩
    some (.acquiring (work.doSplit depthCutOff))
  | _ => none

/-- The regions of an item have been acquired. -/
def acquire (item : WorkItemImpl C R) : Option (ItemStatus R) :=
  match item.status with
  | .acquiring split => some (.acquired split)
  | _ => none

/-- `do_split`, or `do_process` once `get_deps` finds the dependencies ready. -/
def execute (items : List (WorkItemImpl C R)) (item : WorkItemImpl C R) (deps : List (List Nat))
    (awaits : List Nat) : Option (ItemStatus R × List (WorkItemImpl C R)) :=
  match item.status with
  | .acquired split => do
    let children := (description.variant split item.origin.closure).children
    let known := awaits.all (· < items.length + children.length)
    if (split || allReady items item.origin.dep) ∧ deps.length = children.length ∧ known then
      let spawned ← spawnChildren item.origin items.length 0 (children.zip deps)
      some (.executed split (List.range' items.length children.length) awaits, spawned)
    else none
  | _ => none

/-- `finalize` when the future of the variant is ready. -/
def finalize (items : List (WorkItemImpl C R)) (item : WorkItemImpl C R) : Option (ItemStatus R) :=
  match item.status with
  | .executed split children awaits => do
    let values ← children.mapM (getValue items)
    if allReady items awaits then
      some (.ready ((description.variant split item.origin.closure).combine values))
    else none
  | _ => none

/-- One step of all items. -/
def step (items : List (WorkItemImpl C R)) :
    ExecutionAction C → Option (List (WorkItemImpl C R))
  | .spawnFirst closure dep =>
    if dep.all (· < items.length) then
      some (items ++ [⟨⟨items.length, .root, closure, dep⟩, .enqueued⟩])
    else none
  | .scheduleLocal i depthCutOff => do
    let item ← items[i]?
    let status ← scheduleLocal description item depthCutOff
    some (items.set i { item with status := status })
  | .acquire i => do
    let item ← items[i]?
    let status ← acquire item
    some (items.set i { item with status := status })
  | .execute i deps awaits => do
    let item ← items[i]?
    let (status, spawned) ← execute description items item deps awaits
    some (items.set i { item with status := status } ++ spawned)
  | .finalize i => do
    let item ← items[i]?
    let status ← finalize description items item
    some (items.set i { item with status := status })

/-- All items of a program, from the first one that is spawned. -/
def executing : System (List (WorkItemImpl C R)) (ExecutionAction C) where
  start := []
  step := fun items action items' => step description items action = some items'

/-! ## One step -/

variable {description} {items items' : List (WorkItemImpl C R)} {item : WorkItemImpl C R}
variable {action : ExecutionAction C} {status : ItemStatus R} {spawned : List (WorkItemImpl C R)}

/-- What a step other than `spawn_first` does with the item that it is about. -/
inductive Change (description : WorkItemDescription C R) (items : List (WorkItemImpl C R))
    (item : WorkItemImpl C R) :
    ExecutionAction C → ItemStatus R → List (WorkItemImpl C R) → Prop
  | scheduleLocal {i depthCutOff : Nat} (before : item.status = .enqueued) :
      Change description items item (.scheduleLocal i depthCutOff)
        (.acquiring (description.canSplit item.origin.closure &&
          item.origin.path.getLength < depthCutOff)) []
  | acquire {i : Nat} {split : Bool} (before : item.status = .acquiring split) :
      Change description items item (.acquire i) (.acquired split) []
  | execute {i : Nat} {deps : List (List Nat)} {awaits : List Nat} {split : Bool}
      {spawned : List (WorkItemImpl C R)} (before : item.status = .acquired split)
      (depended : split = true ∨ allReady items item.origin.dep = true)
      (arity : deps.length = (description.variant split item.origin.closure).children.length)
      (known : ∀ j ∈ awaits, j < items.length +
        (description.variant split item.origin.closure).children.length)
      (spawns : spawnChildren item.origin items.length 0
        ((description.variant split item.origin.closure).children.zip deps) = some spawned) :
      Change description items item (.execute i deps awaits)
        (.executed split (List.range' items.length
          (description.variant split item.origin.closure).children.length) awaits) spawned
  | finalize {i : Nat} {split : Bool} {children awaits : List Nat} {values : List R}
      (before : item.status = .executed split children awaits)
      (collects : children.mapM (getValue items) = some values)
      (awaited : allReady items awaits = true) :
      Change description items item (.finalize i)
        (.ready ((description.variant split item.origin.closure).combine values)) []

/-- A step spawns a root item, or changes one item and appends its children. -/
theorem step_cases (taken : step description items action = some items') :
    (∃ closure dep, action = .spawnFirst closure dep ∧ (∀ j ∈ dep, j < items.length) ∧
      items' = items ++ [⟨⟨items.length, .root, closure, dep⟩, .enqueued⟩]) ∨
    ∃ i item status spawned, items[i]? = some item ∧
      Change description items item action status spawned ∧
      items' = items.set i { item with status := status } ++ spawned := by
  cases action with
  | spawnFirst closure dep =>
    rw [step] at taken
    split at taken
    · rename_i known
      refine Or.inl ⟨closure, dep, rfl, fun j found => ?_, (Option.some.inj taken).symm⟩
      exact of_decide_eq_true (List.all_eq_true.mp known j found)
    · cases taken
  | scheduleLocal i depthCutOff =>
    simp only [step, Option.bind_eq_bind, Option.bind_eq_some_iff, Option.some.injEq] at taken
    obtain ⟨item, found, status, scheduled, rfl⟩ := taken
    rw [scheduleLocal] at scheduled
    split at scheduled
    · rename_i before
      cases scheduled
      exact Or.inr ⟨i, item, _, [], found, .scheduleLocal before, (List.append_nil _).symm⟩
    · cases scheduled
  | acquire i =>
    simp only [step, Option.bind_eq_bind, Option.bind_eq_some_iff, Option.some.injEq] at taken
    obtain ⟨item, found, status, acquired, rfl⟩ := taken
    rw [acquire] at acquired
    split at acquired
    · rename_i before
      cases acquired
      exact Or.inr ⟨i, item, _, [], found, .acquire before, (List.append_nil _).symm⟩
    · cases acquired
  | execute i deps awaits =>
    simp only [step, Option.bind_eq_bind, Option.bind_eq_some_iff, Option.some.injEq] at taken
    obtain ⟨item, found, ⟨status, spawned⟩, executed, rfl⟩ := taken
    rw [execute] at executed
    split at executed
    · rename_i split before
      simp only [Option.bind_eq_bind] at executed
      split at executed
      · rename_i allowed
        obtain ⟨children, spawns, same⟩ := Option.bind_eq_some_iff.mp executed
        cases same
        refine Or.inr ⟨i, item, _, _, found, .execute before
          (Bool.or_eq_true_iff.mp allowed.1) allowed.2.1 (fun j held => ?_) spawns, rfl⟩
        exact of_decide_eq_true (List.all_eq_true.mp allowed.2.2 j held)
      · cases executed
    · cases executed
  | finalize i =>
    simp only [step, Option.bind_eq_bind, Option.bind_eq_some_iff, Option.some.injEq] at taken
    obtain ⟨item, found, status, finalized, rfl⟩ := taken
    rw [finalize] at finalized
    split at finalized
    · rename_i before
      obtain ⟨values, collects, combined⟩ := Option.bind_eq_some_iff.mp finalized
      split at combined
      · rename_i awaited
        cases combined
        exact Or.inr ⟨i, item, _, [], found, .finalize before collects awaited,
          (List.append_nil _).symm⟩
      · cases combined
    · cases finalized

/-- The children that a variant spawns have its closures. -/
theorem closures_spawnChildren {parent : Origin C} {next : Nat} {pos : Nat}
    {calls : List (C × List Nat)} (spawns : spawnChildren parent next pos calls = some spawned) :
    spawned.map (·.origin.closure) = calls.map Prod.fst := by
  induction calls generalizing pos spawned with
  | nil =>
    cases spawns
    rfl
  | cons call calls ih =>
    obtain ⟨closure, dep⟩ := call
    simp only [spawnChildren, Option.bind_eq_bind, Option.bind_eq_some_iff] at spawns
    obtain ⟨path, -, later, rest, spawns⟩ := spawns
    split at spawns
    · cases spawns
      rw [List.map_cons, List.map_cons, ih rest]
    · cases spawns

/-- The children of a variant start below their parent. -/
theorem mem_spawnChildren {parent : Origin C} {next : Nat} {pos : Nat}
    {calls : List (C × List Nat)} (spawns : spawnChildren parent next pos calls = some spawned)
    {child : WorkItemImpl C R} (found : child ∈ spawned) :
    child.status = .enqueued ∧ child.origin.root = parent.root ∧
      ∃ s, child.origin.path = s :: parent.path := by
  induction calls generalizing pos spawned with
  | nil =>
    cases spawns
    cases found
  | cons call calls ih =>
    obtain ⟨closure, dep⟩ := call
    simp only [spawnChildren, Option.bind_eq_bind, Option.bind_eq_some_iff] at spawns
    obtain ⟨path, place, later, rest, spawns⟩ := spawns
    split at spawns
    · cases spawns
      rcases List.mem_cons.mp found with rfl | found
      · refine ⟨rfl, rfl, ?_⟩
        match pos, place with
        | 0, place => exact ⟨.left, (Option.some.inj place).symm⟩
        | 1, place => exact ⟨.right, (Option.some.inj place).symm⟩
      · exact ih rest found
    · cases spawns

/-- An item after a step is the one that was changed, an old one, or a new one. -/
theorem getElem?_changed {i j : Nat} {changed other : WorkItemImpl C R}
    (found : (items.set i changed ++ spawned)[j]? = some other) :
    (j = i ∧ other = changed) ∨ (j ≠ i ∧ items[j]? = some other) ∨ other ∈ spawned := by
  rw [List.getElem?_append] at found
  split at found
  · rename_i inside
    rw [List.getElem?_set] at found
    split at found
    · rename_i same
      split at found
      · exact Or.inl ⟨same.symm, (Option.some.inj found).symm⟩
      · cases found
    · rename_i other
      exact Or.inr (Or.inl ⟨fun same => other same.symm, found⟩)
  · exact Or.inr (Or.inr (List.mem_of_getElem? found))

/-- The closure of an item. -/
def getClosure (items : List (WorkItemImpl C R)) (i : Nat) : Option C :=
  items[i]?.map (·.origin.closure)

/-- Items are created with what they keep, and new ones come at the end. -/
def Extends (items items' : List (WorkItemImpl C R)) : Prop :=
  items.map (·.origin) <+: items'.map (·.origin)

/-- Changing the status of an item and appending others extends the items. -/
theorem extends_changed {i : Nat} (found : items[i]? = some item) (status : ItemStatus R)
    (spawned : List (WorkItemImpl C R)) :
    Extends items (items.set i { item with status := status } ++ spawned) := by
  have same : (items.set i { item with status := status }).map (·.origin) =
      items.map (·.origin) := by
    have inside := (List.getElem?_eq_some_iff.mp found).1
    apply List.ext_getElem?
    intro j
    rw [List.getElem?_map, List.getElem?_map]
    by_cases here : i = j
    · rw [← here, List.getElem?_set_self inside, found]
      rfl
    · rw [List.getElem?_set_ne here]
  rw [Extends, List.map_append, same]
  exact List.prefix_append _ _

/-- A step keeps what the items were created with. -/
theorem extends_of_step (taken : step description items action = some items') :
    Extends items items' := by
  rcases step_cases taken with ⟨closure, dep, -, -, rfl⟩ | ⟨i, item, status, spawned, found, -, rfl⟩
  · rw [Extends, List.map_append]
    exact List.prefix_append _ _
  · exact extends_changed found status spawned

/-- What is extended keeps its closures. -/
theorem Extends.getClosure {i : Nat} {closure : C} (extended : Extends items items')
    (known : Execution.getClosure items i = some closure) :
    Execution.getClosure items' i = some closure := by
  have before : (items.map (·.origin))[i]?.map (·.closure) = some closure := by
    rw [List.getElem?_map, Option.map_map]
    exact known
  obtain ⟨rest, same⟩ := extended
  have after : (items'.map (·.origin))[i]?.map (·.closure) = some closure := by
    obtain ⟨origin, found, rfl⟩ := Option.map_eq_some_iff.mp before
    have inside := (List.getElem?_eq_some_iff.mp found).1
    rw [← same, List.getElem?_append_left inside, found]
    rfl
  rw [List.getElem?_map, Option.map_map] at after
  exact after

/-! ## Sequential meaning -/

/-- Functions that give the same results do so for a list of arguments. -/
theorem mapM_eq_some_of_imp {α β : Type} {f g : α → Option β} {list : List α} {values : List β}
    (imp : ∀ a b, f a = some b → g a = some b) (collects : list.mapM f = some values) :
    list.mapM g = some values := by
  induction list generalizing values with
  | nil => exact collects
  | cons a list ih =>
    simp only [List.mapM_cons, Option.bind_eq_bind, Option.bind_eq_some_iff] at collects ⊢
    obtain ⟨value, here, rest, there, same⟩ := collects
    exact ⟨value, imp a value here, rest, ih there, same⟩

/-- More fuel gives the same result. -/
theorem evaluate_mono {fuel more : Nat} {closure : C} {value : R} (enough : fuel ≤ more)
    (evaluates : description.evaluate fuel closure = some value) :
    description.evaluate more closure = some value := by
  induction fuel generalizing more closure value with
  | zero => cases evaluates
  | succ fuel ih =>
    obtain ⟨more, rfl⟩ : ∃ rest, more = rest + 1 := ⟨more - 1, by omega⟩
    simp only [WorkItemDescription.evaluate, Option.bind_eq_bind, Option.bind_eq_some_iff]
      at evaluates ⊢
    obtain ⟨values, children, result⟩ := evaluates
    have deeper := mapM_eq_some_of_imp (fun _ _ => ih (Nat.le_of_succ_le_succ enough)) children
    exact ⟨values, deeper, result⟩

/-- The value of a treeture that is ready is the sequential one. -/
def Means (description : WorkItemDescription C R) (closure : C) (value : R) : Prop :=
  ∃ fuel, description.evaluate fuel closure = some value

/-- A closure means one value only. -/
theorem Means.unique {closure : C} {first second : R} (one : Means description closure first)
    (other : Means description closure second) : first = second := by
  obtain ⟨fuel, gives⟩ := one
  obtain ⟨fuel', gives'⟩ := other
  have same := evaluate_mono (Nat.le_max_left fuel fuel') gives
  rw [evaluate_mono (Nat.le_max_right fuel fuel') gives'] at same
  exact (Option.some.inj same).symm

/-- When the treetures of children are ready with what their closures mean, some amount of fuel is
enough to evaluate all of them. -/
theorem exists_fuel_mapM {children : List Nat} {closures : List C} {values : List R}
    (known : children.mapM (getClosure items) = some closures)
    (collects : children.mapM (getValue items) = some values)
    (means : ∀ i closure value, getClosure items i = some closure →
      getValue items i = some value → Means description closure value) :
    ∃ fuel, closures.mapM (description.evaluate fuel) = some values := by
  induction children generalizing closures values with
  | nil =>
    cases known
    cases collects
    exact ⟨0, rfl⟩
  | cons child children ih =>
    simp only [List.mapM_cons, Option.bind_eq_bind, Option.bind_eq_some_iff] at known collects
    obtain ⟨closure, here, closures, there, same⟩ := known
    obtain ⟨value, here', values, there', same'⟩ := collects
    cases same
    cases same'
    obtain ⟨fuel, gives⟩ := means child closure value here here'
    obtain ⟨fuel', rest⟩ := ih there there'
    refine ⟨max fuel fuel', ?_⟩
    have first := evaluate_mono (Nat.le_max_left fuel fuel') gives
    have enough (child : C) (value : R) (gives : description.evaluate fuel' child = some value) :
        description.evaluate (max fuel fuel') child = some value :=
      evaluate_mono (Nat.le_max_right fuel fuel') gives
    have later := mapM_eq_some_of_imp enough rest
    simp only [List.mapM_cons, Option.bind_eq_bind, first, Option.bind_some, later]
    rfl

/-! ## Soundness -/

/-- What holds of an item in every run: its treeture is ready only with what its closure means,
the items it waits for are the children of its variant, and it is split only when it can be. -/
structure Sound (description : WorkItemDescription C R) (items : List (WorkItemImpl C R))
    (item : WorkItemImpl C R) : Prop where
  /-- The value of a treeture. -/
  means : ∀ value, item.status = .ready value → Means description item.origin.closure value
  /-- The items that have been spawned as children. -/
  children : ∀ split children awaits, item.status = .executed split children awaits →
    children.mapM (getClosure items) =
      some (description.variant split item.origin.closure).children
  /-- The items that are split. -/
  splits : (item.status = .acquiring true ∨ item.status = .acquired true ∨
    ∃ children awaits, item.status = .executed true children awaits) →
    description.canSplit item.origin.closure = true

/-- An item that has only been enqueued is sound. -/
theorem sound_enqueued (enqueued : item.status = .enqueued) : Sound description items item where
  means := by simp [enqueued]
  children := by simp [enqueued]
  splits := by simp [enqueued]

/-- New items and changes of other items leave an item sound. -/
theorem Sound.mono (sound : Sound description items item) (extended : Extends items items') :
    Sound description items' item where
  means := sound.means
  children _ _ _ executed :=
    mapM_eq_some_of_imp (fun _ _ => extended.getClosure) (sound.children _ _ _ executed)
  splits := sound.splits

/-- Numbers that are given to the members of a list in order lead back to the list. -/
theorem mapM_range' {α : Type} {f : Nat → Option α} {list : List α} (first : Nat)
    (numbered : ∀ k a, list[k]? = some a → f (first + k) = some a) :
    (List.range' first list.length).mapM f = some list := by
  induction list generalizing first with
  | nil => rfl
  | cons a list ih =>
    have here : f first = some a := numbered 0 a rfl
    have there := ih (first + 1) fun k b found => by
      rw [Nat.add_right_comm]
      exact numbered (k + 1) b found
    rw [List.length_cons, List.range'_succ]
    simp only [List.mapM_cons, Option.bind_eq_bind, here, Option.bind_some, there]
    rfl

/-- The children of an executed item are numbered as they are appended. -/
theorem getClosure_spawned {i : Nat} {changed : WorkItemImpl C R} {parent : Origin C}
    {closures : List C} {deps : List (List Nat)} (arity : deps.length = closures.length)
    (spawns : spawnChildren parent items.length 0 (closures.zip deps) = some spawned) :
    (List.range' items.length closures.length).mapM
      (getClosure (items.set i changed ++ spawned)) = some closures := by
  apply mapM_range'
  intro k closure found
  have all := closures_spawnChildren spawns
  rw [List.map_fst_zip (Nat.le_of_eq arity.symm)] at all
  rw [← all, List.getElem?_map] at found
  rw [getClosure, List.getElem?_append_right (by simp), List.length_set,
    Nat.add_sub_cancel_left]
  exact found

/-- All items are sound. -/
def AllSound (description : WorkItemDescription C R) (items : List (WorkItemImpl C R)) : Prop :=
  ∀ (i : Nat) (item : WorkItemImpl C R), items[i]? = some item → Sound description items item

/-- What a sound item becomes in a step is sound. -/
theorem Sound.changed (agrees : description.Agrees) (all : AllSound description items) {i : Nat}
    (found : items[i]? = some item) (change : Change description items item action status spawned) :
    Sound description (items.set i { item with status := status } ++ spawned)
      { item with status := status } := by
  have sound := all i item found
  cases change with
  | scheduleLocal before =>
    refine ⟨by simp, by simp, fun splits => ?_⟩
    simp only [ItemStatus.acquiring.injEq, Bool.and_eq_true, reduceCtorEq, exists_false, or_false]
      at splits
    exact splits.1
  | acquire before =>
    refine ⟨by simp, by simp, fun splits => sound.splits (Or.inl ?_)⟩
    simp only [ItemStatus.acquired.injEq, reduceCtorEq, exists_false, or_false, false_or] at splits
    rw [before, splits]
  | execute before depended arity known spawns =>
    refine ⟨by simp, fun split children awaits executed => ?_, fun splits => ?_⟩
    · cases executed
      exact getClosure_spawned arity spawns
    · refine sound.splits (Or.inr (Or.inl ?_))
      simp only [reduceCtorEq, ItemStatus.executed.injEq, false_or] at splits
      obtain ⟨children, awaits, split, -⟩ := splits
      rw [before, split]
  | @finalize _ split children awaits values before collects awaited =>
    refine ⟨fun value ready => ?_, by simp, by simp⟩
    cases ready
    obtain ⟨fuel, gives⟩ := exists_fuel_mapM (sound.children _ _ _ before) collects
      fun j closure value known ready => by
        obtain ⟨other, here, rfl⟩ := Option.map_eq_some_iff.mp known
        rw [getValue, here] at ready
        refine (all j other here).means value ?_
        cases status : other.status <;> rw [Option.bind_some, status] at ready <;> cases ready
        rfl
    cases split with
    | true =>
      have splits := sound.splits (Or.inr (Or.inr ⟨children, awaits, before⟩))
      exact agrees item.origin.closure splits fuel values gives
    | false =>
      refine ⟨fuel + 1, ?_⟩
      show (description.processVariant item.origin.closure).children.mapM _ >>= _ = _
      rw [show (description.processVariant item.origin.closure).children.mapM
        (description.evaluate fuel) = some values from gives]
      rfl

/-- Steps keep all items sound. -/
theorem sound_of_step (agrees : description.Agrees) (all : AllSound description items)
    (taken : step description items action = some items') : AllSound description items' := by
  intro j other there
  have extended := extends_of_step taken
  rcases step_cases taken with
    ⟨closure, dep, -, -, rfl⟩ | ⟨i, item, status, spawned, found, change, rfl⟩
  · rw [List.getElem?_append] at there
    split at there
    · exact (all j other there).mono extended
    · have last := List.mem_singleton.mp (List.mem_of_getElem? there)
      exact sound_enqueued (by rw [last])
  · rcases getElem?_changed there with ⟨-, rfl⟩ | ⟨-, before⟩ | new
    · exact Sound.changed agrees all found change
    · exact (all j other before).mono extended
    · refine sound_enqueued ?_
      cases change with
      | execute _ _ _ _ spawns => exact (mem_spawnChildren spawns new).1
      | scheduleLocal => cases new
      | acquire => cases new
      | finalize => cases new

/-- In every run, whatever the order of the steps, the depths of the splits and the dependencies, a
treeture that is ready has the one value that processing its closure sequentially gives, provided
that splitting a closure means the same as processing it. -/
theorem ready_means (agrees : description.Agrees)
    {history : List (List (WorkItemImpl C R) × ExecutionAction C)}
    {items : List (WorkItemImpl C R)} (run : (executing description).Run history items) {i : Nat}
    {item : WorkItemImpl C R} (found : items[i]? = some item) {value : R}
    (ready : item.status = .ready value) :
    Means description item.origin.closure value ∧
      ∀ other, Means description item.origin.closure other → other = value := by
  have sound := run.invariant (P := AllSound description) (by simp [AllSound, executing])
    fun before taken => sound_of_step agrees before taken
  have means := (sound i item found).means value ready
  exact ⟨means, fun other another => another.unique means⟩

/-! ## Fibonacci -/

/-- `fib_ser`, the serial reference of the example. -/
def fibSer : Nat → Nat
  | 0 | 1 | 2 => 1
  | n + 3 => fibSer (n + 2) + fibSer (n + 1)

/-- `fibonacci_work` of the example: it is processed serially, and split in two. -/
def fibonacciWork : WorkItemDescription Nat Nat where
  canSplit _ := true
  splitVariant n :=
    if n ≤ 2 then ⟨[], fun _ => 1, by decide⟩
    else ⟨[n - 1, n - 2], fun values => values.sum, Nat.le_refl 2⟩
  processVariant n := ⟨[], fun _ => fibSer n, by decide⟩

/-- Splitting a Fibonacci number means computing it. -/
theorem agrees_fibonacciWork : fibonacciWork.Agrees := by
  intro n _ fuel values children
  have evaluates (fuel m : Nat) :
      fibonacciWork.evaluate fuel m = if fuel = 0 then none else some (fibSer m) := by
    cases fuel <;> rfl
  refine ⟨1, ?_⟩
  rw [evaluates, if_neg (by decide)]
  match n with
  | 0 | 1 | 2 => rfl
  | m + 3 =>
    have several : ¬ m + 3 ≤ 2 := by omega
    simp only [fibonacciWork, several, if_false] at children ⊢
    cases fuel with
    | zero => cases children
    | succ fuel =>
      have sums : values = [fibSer (m + 2), fibSer (m + 1)] := (Option.some.inj children).symm
      rw [sums]
      simp [fibSer]

/-- The fourth Fibonacci number, split once: the second child is processed before the first. -/
theorem ready_means_fibonacci :
    Means fibonacciWork 4 3 ∧ ∀ other, Means fibonacciWork 4 other → other = 3 := by
  obtain ⟨history, run, -⟩ := (System.Run.start (S := executing fibonacciWork)).exists_of_foldlM
    (f := step fibonacciWork) id
    [.spawnFirst 4 [], .scheduleLocal 0 1, .acquire 0, .execute 0 [[], []] [],
      .scheduleLocal 2 1, .acquire 2, .execute 2 [] [], .finalize 2,
      .scheduleLocal 1 1, .acquire 1, .execute 1 [] [], .finalize 1, .finalize 0] rfl
  exact ready_means agrees_fibonacciWork run (i := 0) rfl rfl

end Execution

end AllScale
