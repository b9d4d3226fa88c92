import Mathlib.Logic.Relation
import AllScale.Lib.Run
import AllScale.Tasks.PackedPath

/-!
# Task ids

A root task is named by the locality that creates it and a counter of that locality, a child by its
root and its path. The counter of children in the work item of the parent gives every child its
side. So the tasks of all localities, in all trees that grow side by side, have ids of their own,
and the id of a task tells which tasks it has been spawned by.
-/

namespace AllScale

open Transition TokenTree
open Function (update)
open PackedPath (bit)

/-- `task_id` — what its construction and its comparisons read and write. -/
structure TaskId (capacity : Nat) where
  /-- `locality_id`. -/
  localityId : Nat
  /-- `id`. -/
  id : Nat
  /-- `path`. -/
  path : PackedPath capacity
  /-- `numa_depth`. -/
  numaDepth : BitVec 8
  /-- `numa_node_`. -/
  numaNode : BitVec 8

/-- `work_item_impl_base` — the part of a work item that creates the ids of its children. -/
structure WorkItem (capacity : Nat) where
  /-- `id_`. -/
  id : TaskId capacity
  /-- `num_children`. -/
  numChildren : BitVec 8

namespace TaskId

variable {capacity : Nat}

/-- What the comparisons of ids compare. -/
def tie (self : TaskId capacity) : Nat × Nat × PackedPath capacity :=
  (self.localityId, self.id, self.path)

/-- `operator==`. -/
def equal (lhs rhs : TaskId capacity) : Bool := lhs.tie = rhs.tie

/-- `task_id::left_child`. -/
def leftChild (self : TaskId capacity) : TaskId capacity :=
  { self with path := self.path.getLeftChildPath }

/-- `task_id::right_child`. -/
def rightChild (self : TaskId capacity) : TaskId capacity :=
  { self with path := self.path.getRightChildPath }

/-- `task_id::is_parent_of`. -/
def isParentOf (self id : TaskId capacity) : Bool :=
  self.id == id.id && self.localityId == id.localityId && self.path.isPrefixOf id.path

/-- `task_id::create_root` on a locality, with the counter of the locality. -/
def createRoot (here id : Nat) : TaskId capacity × Nat :=
  (⟨here, id, .root capacity, 0, 255⟩, (id + 1) % 2 ^ 64)

/-- `task_id::create_child` with a current work item; an assertion rules a third child out. -/
def createChild (curWi : WorkItem capacity) : Option (TaskId capacity × WorkItem capacity) :=
  let pos := curWi.numChildren
  let curWi := { curWi with numChildren := curWi.numChildren + 1 }
  if pos = 0 then some (curWi.id.leftChild, curWi)
  else if pos = 1 then some (curWi.id.rightChild, curWi)
  else none

/-- What a child on a side is compared by. -/
def childTie (self : TaskId capacity) (s : Side) : Nat × Nat × PackedPath capacity :=
  (self.localityId, self.id, self.path.getChildPath s)

/-- The sides are given to the children in order. -/
theorem createChild_cases {curWi curWi' : WorkItem capacity} {id : TaskId capacity}
    (created : createChild curWi = some (id, curWi')) : ∃ s, curWi.numChildren.toNat = bit s ∧
      id.tie = curWi.id.childTie s ∧ curWi'.id = curWi.id ∧
      curWi'.numChildren.toNat = curWi.numChildren.toNat + 1 := by
  unfold createChild at created
  dsimp only at created
  split at created
  · rename_i first
    cases created
    exact ⟨.left, by simp [first, bit], rfl, rfl, by simp [first]⟩
  · split at created
    · rename_i second
      cases created
      exact ⟨.right, by simp [second, bit], rfl, rfl, by simp [second]⟩
    · exact absurd created (by simp)

end TaskId

/-! ## Spawning -/

/-- A task that has been created. -/
structure Task (capacity : Nat) where
  /-- Its work item. -/
  workItem : WorkItem capacity
  /-- The task whose work item was the current one when `create_child` created it, unless it is a
  root task. -/
  parent : Option Nat

/-- The tasks of all localities. -/
structure Forest (capacity : Nat) where
  /-- The counters in `task_id::create_root`, of every locality. -/
  counters : Nat → Nat
  /-- The tasks, in the order of their creation. -/
  tasks : List (Task capacity)

namespace Forest

variable {capacity : Nat}

/-- A task is added. -/
def add (self : Forest capacity) (id : TaskId capacity) (parent : Option Nat) : Forest capacity :=
  { self with tasks := self.tasks ++ [⟨⟨id, 0⟩, parent⟩] }

/-- A call of `task_id::create_root` on a locality. -/
def createRoot (self : Forest capacity) (here : Nat) : Forest capacity :=
  let created := TaskId.createRoot here (self.counters here)
  { self with counters := update self.counters here created.2 }.add created.1 none

/-- A call of `task_id::create_child` on a locality, where the work item of a task is the current
one or there is none. -/
def createChild (self : Forest capacity) (here : Nat) : Option Nat → Option (Forest capacity)
  | none => some (self.createRoot here)
  | some current => do
    let task ← self.tasks[current]?
    let (id, curWi) ← TaskId.createChild task.workItem
    let self := { self with tasks := self.tasks.set current { task with workItem := curWi } }
    return self.add id (some current)

/-- The calls that create tasks. -/
inductive Action where
  /-- `task_id::create_root`. -/
  | createRoot (here : Nat)
  /-- `task_id::create_child`, with the task whose work item is the current one. -/
  | createChild (here : Nat) (current : Option Nat)

/-- The calls on all localities. -/
inductive Step : Forest capacity → Action → Forest capacity → Prop
  | createRoot {s : Forest capacity} (here : Nat) :
      Step s (.createRoot here) (s.createRoot here)
  | createChild {s s' : Forest capacity} {here : Nat} {current : Option Nat} :
      s.createChild here current = some s' → Step s (.createChild here current) s'

/-- No task has been created yet. -/
def spawning (capacity : Nat) : System (Forest capacity) Action where
  start := ⟨fun _ => 1, []⟩
  step := Step

/-- The counter of a locality does not wrap, and the path of a task has room for another turn. -/
def Action.Within (s : Forest capacity) : Action → Prop
  | .createRoot here => s.counters here + 1 < 2 ^ 64
  | .createChild here none => s.counters here + 1 < 2 ^ 64
  | .createChild _ (some current) =>
    ∀ task, s.tasks[current]? = some task → task.workItem.id.path.length < capacity

/-- One task has been spawned by the other. -/
def Spawned (s : Forest capacity) (i j : Nat) : Prop :=
  ∃ task, s.tasks[j]? = some task ∧ task.parent = some i

/-- Different tasks have different ids, and the parents of an id are the task itself and the tasks
that have spawned it. -/
structure Identified (s : Forest capacity) : Prop where
  /-- Different tasks have different ids. -/
  distinct : ∀ {i j : Nat} {a b : Task capacity}, s.tasks[i]? = some a → s.tasks[j]? = some b →
    i ≠ j → a.workItem.id.equal b.workItem.id = false
  /-- The parents of an id are the task itself and its ancestors. -/
  ancestors : ∀ {i j : Nat} {a b : Task capacity}, s.tasks[i]? = some a → s.tasks[j]? = some b →
    (a.workItem.id.isParentOf b.workItem.id = true ↔ Relation.ReflTransGen s.Spawned i j)

/-! ## Growth -/

/-- What the ids of a forest tell about the forest. -/
structure Grown (s : Forest capacity) : Prop where
  /-- The counters are ahead of all ids. -/
  counted : ∀ {i : Nat} {a : Task capacity}, s.tasks[i]? = some a →
    a.workItem.id.id < s.counters a.workItem.id.localityId
  /-- The tasks without a parent are roots. -/
  root : ∀ {i : Nat} {a : Task capacity}, s.tasks[i]? = some a → a.parent = none →
    a.workItem.id.path = .root capacity
  /-- The id of a task with a parent is that of a child. -/
  child : ∀ {i p : Nat} {a : Task capacity}, s.tasks[i]? = some a → a.parent = some p →
    ∃ b s', s.tasks[p]? = some b ∧ b.workItem.id.path.length < capacity ∧
      a.workItem.id.tie = b.workItem.id.childTie s'
  /-- No two tasks have one id. -/
  injective : ∀ {i j : Nat} {a b : Task capacity}, s.tasks[i]? = some a → s.tasks[j]? = some b →
    a.workItem.id.tie = b.workItem.id.tie → i = j
  /-- The counter of children is ahead of the sides of the children. -/
  ahead : ∀ {i j : Nat} {a b : Task capacity} {s' : Side}, s.tasks[i]? = some a →
    s.tasks[j]? = some b → b.workItem.id.tie = a.workItem.id.childTie s' →
    bit s' < a.workItem.numChildren.toNat

variable {s : Forest capacity} {i j current : Nat} {a b : Task capacity}

/-- Children of one id are told apart by their sides, and children of different ids differ. -/
theorem tie_of_childTie {first second : TaskId capacity} (short : first.path.length < capacity)
    {s t : Side} (same : first.childTie s = second.childTie t) :
    first.tie = second.tie ∧ s = t := by
  unfold TaskId.childTie at same
  unfold TaskId.tie
  simp only [Prod.mk.injEq] at same
  obtain ⟨locality, id, path⟩ := same
  obtain ⟨path, side⟩ := PackedPath.getChildPath_injective short path
  rw [locality, id, path]
  exact ⟨rfl, side⟩

/-- No child has the path of a root. -/
theorem childTie_ne_root {id other : TaskId capacity} (root : id.path = .root capacity) (s : Side) :
    id.tie ≠ other.childTie s := by
  intro same
  have path : id.path = other.path.getChildPath s := congrArg (fun tie => tie.2.2) same
  rw [root] at path
  exact absurd (congrArg PackedPath.length path) (Nat.succ_ne_zero _).symm

/-- The tasks after one has been added. -/
theorem tasks_add (s : Forest capacity) (id : TaskId capacity) (parent : Option Nat) :
    (s.add id parent).tasks[i]? = some a ↔
      s.tasks[i]? = some a ∨ i = s.tasks.length ∧ a = ⟨⟨id, 0⟩, parent⟩ := by
  show (s.tasks ++ [_])[i]? = some a ↔ _
  rw [List.getElem?_append]
  split
  · have inside : i ≠ s.tasks.length := by omega
    simp [inside]
  · rename_i beyond
    have absent : s.tasks[i]? = none := List.getElem?_eq_none (by omega)
    by_cases last : i = s.tasks.length
    · simp [last, eq_comm]
    · have empty : i - s.tasks.length ≠ 0 := by omega
      simp [absent, last, empty]

/-- A task was there before the work item of one has been replaced. -/
theorem exists_before_set (found : s.tasks[current]? = some a) {curWi : WorkItem capacity}
    (same : curWi.id = a.workItem.id)
    (more : a.workItem.numChildren.toNat ≤ curWi.numChildren.toNat)
    (found' : (s.tasks.set current { a with workItem := curWi })[i]? = some b) :
    ∃ c, s.tasks[i]? = some c ∧ b.workItem.id = c.workItem.id ∧ b.parent = c.parent ∧
      c.workItem.numChildren.toNat ≤ b.workItem.numChildren.toNat := by
  rw [List.getElem?_set] at found'
  split at found'
  · rename_i here
    split at found'
    · cases found'
      exact ⟨a, here ▸ found, same, rfl, more⟩
    · exact absurd found' (by simp)
  · exact ⟨b, found', rfl, rfl, Nat.le_refl _⟩

/-- A task is there after the work item of one has been replaced. -/
theorem exists_after_set (found : s.tasks[current]? = some a) {curWi : WorkItem capacity}
    (same : curWi.id = a.workItem.id) (found' : s.tasks[i]? = some b) :
    ∃ c, (s.tasks.set current { a with workItem := curWi })[i]? = some c ∧
      c.workItem.id = b.workItem.id := by
  rw [List.getElem?_set]
  by_cases here : current = i
  · subst here
    have inside := (List.getElem?_eq_some_iff.mp found).1
    rw [found] at found'
    cases found'
    exact ⟨{ a with workItem := curWi }, by simp [inside], same⟩
  · exact ⟨b, by simp [here, found'], rfl⟩

namespace Grown

/-- A task that is not there has no child. -/
theorem childless (grown : s.Grown) {id : TaskId capacity}
    (fresh : ∀ {j : Nat} {b : Task capacity}, s.tasks[j]? = some b → b.workItem.id.tie ≠ id.tie)
    (found : s.tasks[j]? = some b) (s' : Side) : b.workItem.id.tie ≠ id.childTie s' := by
  intro same
  cases origin : b.parent with
  | none => exact childTie_ne_root (grown.root found origin) s' same
  | some p =>
    obtain ⟨c, t, parent, short, tie⟩ := grown.child found origin
    exact fresh parent (tie_of_childTie short (tie.symm.trans same)).1

/-- The ids of a forest remain in order when a task with a new id is added. -/
theorem add (grown : s.Grown) {id : TaskId capacity} {parent : Option Nat}
    (counted : id.id < s.counters id.localityId)
    (root : parent = none → id.path = .root capacity)
    (child : ∀ p, parent = some p → ∃ b s', s.tasks[p]? = some b ∧
      b.workItem.id.path.length < capacity ∧ id.tie = b.workItem.id.childTie s')
    (fresh : ∀ {j : Nat} {b : Task capacity}, s.tasks[j]? = some b → b.workItem.id.tie ≠ id.tie)
    (ahead : ∀ {i : Nat} {a : Task capacity} {s' : Side}, s.tasks[i]? = some a →
      id.tie = a.workItem.id.childTie s' → bit s' < a.workItem.numChildren.toNat) :
    (s.add id parent).Grown := by
  have old {p : Nat} {b : Task capacity} (found : s.tasks[p]? = some b) :
      (s.add id parent).tasks[p]? = some b := (tasks_add s id parent).mpr (Or.inl found)
  constructor
  · intro i a found
    rcases (tasks_add s id parent).mp found with found | ⟨-, rfl⟩
    · exact grown.counted found
    · exact counted
  · intro i a found origin
    rcases (tasks_add s id parent).mp found with found | ⟨-, rfl⟩
    · exact grown.root found origin
    · exact root origin
  · intro i p a found origin
    rcases (tasks_add s id parent).mp found with found | ⟨-, rfl⟩
    · obtain ⟨b, s', parent, spawned⟩ := grown.child found origin
      exact ⟨b, s', old parent, spawned⟩
    · obtain ⟨b, s', parent, spawned⟩ := child p origin
      exact ⟨b, s', old parent, spawned⟩
  · intro i j a b found found' same
    rcases (tasks_add s id parent).mp found with found | ⟨here, rfl⟩ <;>
      rcases (tasks_add s id parent).mp found' with found' | ⟨here', rfl⟩
    · exact grown.injective found found' same
    · exact absurd same (fresh found)
    · exact absurd same.symm (fresh found')
    · rw [here, here']
  · intro i j a b s' found found' same
    rcases (tasks_add s id parent).mp found with found | ⟨here, rfl⟩ <;>
      rcases (tasks_add s id parent).mp found' with found' | ⟨here', rfl⟩
    · exact grown.ahead found found' same
    · exact ahead found same
    · exact absurd same (grown.childless fresh found' s')
    · have length := congrArg (fun tie => tie.2.2.length) same
      exact absurd length (Nat.succ_ne_self _).symm

/-- The ids of a forest remain in order when a locality counts a root task. -/
theorem count (grown : s.Grown) (here : Nat) :
    Grown { s with counters := update s.counters here (s.counters here + 1) } where
  counted {i a} found := by
    have counted := grown.counted found
    by_cases same : a.workItem.id.localityId = here
    · show _ < update s.counters here _ a.workItem.id.localityId
      rw [same] at counted ⊢
      rw [Function.update_self]
      omega
    · show _ < update s.counters here _ a.workItem.id.localityId
      rwa [Function.update_of_ne same]
  root := grown.root
  child := grown.child
  injective := grown.injective
  ahead := grown.ahead

/-- A root task has a new id. -/
theorem createRoot (grown : s.Grown) {here : Nat} (room : s.counters here + 1 < 2 ^ 64) :
    (s.createRoot here).Grown := by
  unfold Forest.createRoot TaskId.createRoot
  rw [Nat.mod_eq_of_lt room]
  apply (grown.count here).add
  · show s.counters here < update s.counters here _ here
    rw [Function.update_self]
    exact Nat.lt_succ_self _
  · exact fun _ => rfl
  · exact fun p impossible => absurd impossible (by simp)
  · intro j b found same
    have locality : b.workItem.id.localityId = here := congrArg Prod.fst same
    have id : b.workItem.id.id = s.counters here := congrArg (fun tie => tie.2.1) same
    have counted := grown.counted found
    rw [locality] at counted
    omega
  · exact fun found same => absurd same (childTie_ne_root rfl _)

/-- The ids of a forest remain in order when a work item counts a child. -/
theorem bump (grown : s.Grown) (found : s.tasks[current]? = some a) {curWi : WorkItem capacity}
    (same : curWi.id = a.workItem.id)
    (more : a.workItem.numChildren.toNat ≤ curWi.numChildren.toNat) :
    Grown { s with tasks := s.tasks.set current { a with workItem := curWi } } := by
  constructor
  · intro i b found'
    obtain ⟨c, found', id, -⟩ := exists_before_set found same more found'
    rw [id]
    exact grown.counted found'
  · intro i b found' origin
    obtain ⟨c, found', id, parent, -⟩ := exists_before_set found same more found'
    rw [id]
    exact grown.root found' (parent ▸ origin)
  · intro i p b found' origin
    obtain ⟨c, found', id, parent, -⟩ := exists_before_set found same more found'
    obtain ⟨d, s', spawner, short, tie⟩ := grown.child found' (parent ▸ origin)
    obtain ⟨e, spawner, id'⟩ := exists_after_set found same spawner
    refine ⟨e, s', spawner, ?_, ?_⟩
    · rwa [id']
    · rwa [id, id']
  · intro i j b b' left right tie
    obtain ⟨c, left, id, -⟩ := exists_before_set found same more left
    obtain ⟨c', right, id', -⟩ := exists_before_set found same more right
    rw [id, id'] at tie
    exact grown.injective left right tie
  · intro i j b b' s' left right tie
    obtain ⟨c, left, id, -, more'⟩ := exists_before_set found same more left
    obtain ⟨c', right, id', -⟩ := exists_before_set found same more right
    rw [id, id'] at tie
    exact Nat.lt_of_lt_of_le (grown.ahead left right tie) more'

/-- A child has a new id. -/
theorem createChild (grown : s.Grown) {id : TaskId capacity} {curWi : WorkItem capacity}
    (found : s.tasks[current]? = some a) (short : a.workItem.id.path.length < capacity)
    (created : TaskId.createChild a.workItem = some (id, curWi)) :
    Grown (Forest.add { s with tasks := s.tasks.set current { a with workItem := curWi } } id
      (some current)) := by
  obtain ⟨side, position, tie, same, more⟩ := TaskId.createChild_cases created
  have bumped := grown.bump found same (by omega)
  have inside := (List.getElem?_eq_some_iff.mp found).1
  have spawner : (s.tasks.set current { a with workItem := curWi })[current]? =
      some { a with workItem := curWi } := by simp [inside]
  have fresh {j : Nat} {b : Task capacity} (found' : s.tasks[j]? = some b) :
      b.workItem.id.tie ≠ a.workItem.id.childTie side := by
    intro same
    have ahead := grown.ahead found found' same
    omega
  apply bumped.add
  · have counted := grown.counted found
    have locality : id.localityId = a.workItem.id.localityId := congrArg Prod.fst tie
    have number : id.id = a.workItem.id.id := congrArg (fun tie => tie.2.1) tie
    rw [locality, number]
    exact counted
  · exact fun impossible => absurd impossible (by simp)
  · intro p origin
    cases origin
    refine ⟨_, side, spawner, ?_, ?_⟩
    · show curWi.id.path.length < capacity
      rwa [same]
    · show id.tie = curWi.id.childTie side
      rw [same, tie]
  · intro j b found' equal
    rw [List.getElem?_set] at found'
    split at found'
    · cases found'
      apply fresh found
      rw [← tie, ← equal, ← same]
    · exact fresh found' (equal.trans tie)
  · intro i b s' found' equal
    have short' : curWi.id.path.length < capacity := by rwa [same]
    have spawned : id.tie = curWi.id.childTie side := by rw [same, tie]
    obtain ⟨parent, turn⟩ := tie_of_childTie short' (spawned.symm.trans equal)
    have here : current = i := bumped.injective spawner found' parent
    subst here
    rw [spawner] at found'
    cases found'
    show bit s' < curWi.numChildren.toNat
    rw [← turn]
    omega

end Grown

/-! ## Ancestors -/

/-- A root has no other parent than itself. -/
theorem isParentOf_root {id other : TaskId capacity} (root : other.path = .root capacity) :
    id.isParentOf other = true ↔ id.tie = other.tie := by
  unfold TaskId.isParentOf TaskId.tie
  rw [root]
  simp only [Bool.and_eq_true, beq_iff_eq, PackedPath.isPrefixOf_root, Prod.mk.injEq]
  tauto

/-- The parents of a child are the child itself and the parents of its parent. -/
theorem isParentOf_child {id other parent : TaskId capacity} (short : parent.path.length < capacity)
    {side : Side} (tie : other.tie = parent.childTie side) :
    id.isParentOf other = true ↔ id.tie = other.tie ∨ id.isParentOf parent = true := by
  unfold TaskId.tie TaskId.childTie at tie
  simp only [Prod.mk.injEq] at tie
  unfold TaskId.isParentOf TaskId.tie
  rw [tie.1, tie.2.1, tie.2.2]
  simp only [Bool.and_eq_true, beq_iff_eq, PackedPath.isPrefixOf_child _ short, Prod.mk.injEq]
  tauto

/-- The id of a task is a parent of those of the task itself and of all that it has spawned. -/
theorem isParentOf_of_spawned (grown : s.Grown) (found : s.tasks[i]? = some a)
    (spawned : Relation.ReflTransGen s.Spawned i j) :
    ∀ {b : Task capacity},
      s.tasks[j]? = some b → a.workItem.id.isParentOf b.workItem.id = true := by
  induction spawned with
  | refl =>
    intro b found'
    rw [found] at found'
    cases found'
    unfold TaskId.isParentOf PackedPath.isPrefixOf
    simp
  | tail _ spawned ih =>
    intro b found'
    obtain ⟨c, found'', origin⟩ := spawned
    rw [found'] at found''
    cases found''
    obtain ⟨p, side, parent, short, tie⟩ := grown.child found' origin
    exact (isParentOf_child short tie).mpr (Or.inr (ih parent))

/-- The parents of an id are ids of the task itself or of a task that has spawned it. -/
theorem spawned_of_isParentOf (grown : s.Grown) (found : s.tasks[i]? = some a) {length : Nat} :
    ∀ {j : Nat} {b : Task capacity}, b.workItem.id.path.length = length → s.tasks[j]? = some b →
      a.workItem.id.isParentOf b.workItem.id = true → Relation.ReflTransGen s.Spawned i j := by
  induction length using Nat.strong_induction_on with
  | _ length ih =>
    intro j b long found' parent
    have itself (same : a.workItem.id.tie = b.workItem.id.tie) :
        Relation.ReflTransGen s.Spawned i j := by
      rw [grown.injective found found' same]
    cases origin : b.parent with
    | none => exact itself ((isParentOf_root (grown.root found' origin)).mp parent)
    | some p =>
      obtain ⟨c, side, spawner, short, tie⟩ := grown.child found' origin
      rcases (isParentOf_child short tie).mp parent with same | parent
      · exact itself same
      · have path : b.workItem.id.path = c.workItem.id.path.getChildPath side :=
          congrArg (fun tie => tie.2.2) tie
        have longer : b.workItem.id.path.length = c.workItem.id.path.length + 1 := by rw [path]; rfl
        have before := ih _ (by omega) rfl spawner parent
        exact before.tail ⟨b, found', origin⟩

/-- In a forest whose ids are in order, different tasks have different ids, and an id tells the
ancestors of its task. -/
theorem Grown.identified (grown : s.Grown) : s.Identified where
  distinct found found' other := by
    apply decide_eq_false
    intro same
    exact other (grown.injective found found' same)
  ancestors found found' := by
    constructor
    · exact spawned_of_isParentOf grown found rfl found'
    · intro spawned
      exact isParentOf_of_spawned grown found spawned found'

/-- In every run in which the counters do not wrap and the paths have room, different tasks have
different ids, and an id tells the ancestors of its task. -/
theorem identified_of_run {history : List (Forest capacity × Action)}
    (run : (spawning capacity).Run history s)
    (within : System.Meets (fun s action => action.Within s) history) :
    System.Always Identified history s := by
  have grown : System.Always Grown history s := by
    refine run.always ?_ ?_ within
    · constructor <;> exact fun found => absurd found (by simp [spawning])
    · intro s action s' grown within step
      cases step with
      | createRoot here => exact grown.createRoot within
      | @createChild _ here current created =>
        cases current with
        | none =>
          cases created
          exact grown.createRoot within
        | some current =>
          unfold Forest.createChild at created
          obtain ⟨task, found, created⟩ := Option.bind_eq_some_iff.mp created
          obtain ⟨⟨id, curWi⟩, given, created⟩ := Option.bind_eq_some_iff.mp created
          cases created
          exact grown.createChild found (within task found) given
  exact grown.imp fun _ => Grown.identified

/-- A root task on one locality spawns a task on another, which spawns one itself. -/
theorem identified_of_run_three : ∃ (history : List (Forest 64 × Action)) (s : Forest 64),
    (spawning 64).Run history s ∧ s.tasks.length = 3 ∧ System.Always Identified history s := by
  have root : (spawning 64).Run _ _ := System.Run.start.step (Step.createRoot 0)
  have child := root.step (show Step _ (.createChild 1 (some 0)) _ from .createChild rfl)
  have run := child.step (show Step _ (.createChild 1 (some 1)) _ from .createChild rfl)
  refine ⟨_, _, run, rfl, identified_of_run run ?_⟩
  intro taken found
  simp only [List.mem_cons, List.not_mem_nil, or_false] at found
  rcases found with rfl | rfl | rfl
  · rintro task ⟨⟩
    decide
  · rintro task ⟨⟩
    decide
  · show 1 + 1 < 2 ^ 64
    decide

end Forest

end AllScale
