import AllScale.Lib.Run
import AllScale.DataItemManager.Lookup

/-!
# Runs of the data item manager

The steps of a run are complete: an acquire with its whole cascade, a lookup with all its calls,
or a write task from the node that looks up its missing region to the node where it ends. What
the records of inner nodes say about their children is `Sound` in every run, and `Routed` as
long as no acquire leaves behind what it cannot collect: a part that another branch of the tree
manages without having allocated it. That condition decides whether two leaves can own the same
element.
-/

namespace AllScale

open TokenTree HierarchyAddress Transition

variable {α V : Type}

/-- What can happen to a data item in one step. -/
inductive Action (α : Type) where
  /-- A read-write acquire at a leaf. -/
  | acquire (leaf : HierarchyAddress) (region : Finset α)
  /-- A read-only acquire at a leaf. -/
  | read (leaf : HierarchyAddress) (region : Finset α)
  /-- A lookup started at any node. -/
  | locate (addr : HierarchyAddress) (region : Finset α)
  /-- A write task whose missing region is looked up at `start` and whose allowance is handed
  down a path. -/
  | task (start : HierarchyAddress) (path : List Side) (region : Finset α)

variable [DecidableEq α] {k : Nat}

/-- The steps in a network of `2 ^ k` localities. A task starts at the root or where part of its
region is managed but unallocated. -/
inductive Step (k : Nat) : State α V → Action α → State α V → Prop
  | acquire {s : State α V} {leaf : HierarchyAddress} {region : Finset α} :
      InNetwork (2 ^ k) leaf → leaf.isLeaf = true →
      Step k s (.acquire leaf region) (s.acquireReadWrite (2 ^ k) leaf region)
  | read {s s' : State α V} {leaf : HierarchyAddress} {region : Finset α} {fuel : Nat} :
      InNetwork (2 ^ k) leaf → leaf.isLeaf = true →
      s.acquireReadOnly (2 ^ k) fuel leaf region = some s' → Step k s (.read leaf region) s'
  | locate {s s' : State α V} {addr : HierarchyAddress} {region : Finset α} {fuel : Nat}
      {info : LocationInfo α} :
      InNetwork (2 ^ k) addr → s.locate (2 ^ k) fuel addr region = some (info, s') →
      Step k s (.locate addr region) s'
  | task {s : State α V} {start : HierarchyAddress} {path : List Side} {region : Finset α} :
      InNetwork (2 ^ k) start → path.length ≤ start.layer →
      start = getRootOfNetworkSize (2 ^ k) ∨
        (s.getMissingRegions (2 ^ k) start ⟨region, ∅, .readWrite⟩).1 = true →
      Step k s (.task start path region) (s.task (2 ^ k) start path region)

/-- The data item manager of a network of `2 ^ k` localities. -/
def system (α V : Type) [DecidableEq α] (k : Nat) : System (State α V) (Action α) where
  start := .initial
  step := Step k

/-- A run goes on with an acquire. -/
theorem run_acquire {history : List (State α V × Action α)} {s : State α V}
    (leaf : HierarchyAddress) (region : Finset α) (run : (system α V k).Run history s)
    (member : InNetwork (2 ^ k) leaf) (low : leaf.isLeaf = true) :
    (system α V k).Run ((s, .acquire leaf region) :: history)
      (s.acquireReadWrite (2 ^ k) leaf region) :=
  run.step (Step.acquire member low)

/-- A run goes on with a write task. -/
theorem run_task {history : List (State α V × Action α)} {s : State α V}
    (start : HierarchyAddress) (path : List Side) (region : Finset α)
    (run : (system α V k).Run history s) (member : InNetwork (2 ^ k) start)
    (fits : path.length ≤ start.layer)
    (begins : start = getRootOfNetworkSize (2 ^ k) ∨
      (s.getMissingRegions (2 ^ k) start ⟨region, ∅, .readWrite⟩).1 = true) :
    (system α V k).Run ((s, .task start path region) :: history)
      (s.task (2 ^ k) start path region) :=
  run.step (Step.task member fits begins)

/-! ## One step, seen from one element -/

/-- What an action does to the cells of an element. -/
def Action.effect (k : Nat) (s : State α V) (x : α) : Action α → Grid HierarchyAddress
  | .acquire leaf region => if x ∈ region then (overlay k).take (s.grid x) leaf else s.grid x
  | .read _ _ => s.grid x
  | .locate _ _ => s.grid x
  | .task start path region =>
    if x ∈ region then
      (overlay k).dispatch path (s.grid x) start
        (decide (x ∈ ((s.index start).getMissingRegion (.create (2 ^ k) start) region).1))
    else s.grid x

/-- A read-only acquire writes to caches, and to the items of localities. -/
theorem State.grid_acquireReadOnly {fuel : Nat} {s s' : State α V} {leaf : HierarchyAddress}
    {region : Finset α} (x : α) (member : InNetwork (2 ^ k) leaf)
    (returned : s.acquireReadOnly (2 ^ k) fuel leaf region = some s') :
    s'.grid x = s.grid x := by
  simp only [acquireReadOnly, Option.bind_eq_bind, Option.bind_eq_some_iff] at returned
  obtain ⟨⟨info, t⟩, located, result⟩ := returned
  rw [← Option.some.inj result, grid_transfers]
  exact (locate_caches (k := k) member located).caches.grid x

/-- A step has the effect of its action. -/
theorem Step.grid {s s' : State α V} {action : Action α} (step : Step k s action s') (x : α) :
    s'.grid x = action.effect k s x := by
  cases step with
  | acquire member _ => exact State.grid_acquireReadWrite x s _ _ member
  | read member _ returned => exact State.grid_acquireReadOnly x member returned
  | locate member returned => exact (State.locate_caches (k := k) member returned).caches.grid x
  | task member fits _ => exact State.grid_task x s _ _ _ member fits

/-! ## Records are sound -/

/-- The records about every element are sound. -/
def State.Sound (k : Nat) (s : State α V) : Prop := ∀ x, (overlay k).Sound (s.grid x)

/-- The cells of the initial state are empty. -/
@[simp] theorem State.grid_initial (x : α) (addr : HierarchyAddress) :
    (State.initial : State α V).grid x addr = ⟨false, false, false⟩ := IndexEntry.cell_empty x

/-- Nothing is on record in the initial state. -/
theorem law_initial {R : Bool → Bool → Prop} (reflexive : ∀ flag, R flag flag) (x : α) :
    (overlay k).Law R ((State.initial : State α V).grid x) := by
  refine ⟨fun n _ _ => ?_, fun n _ _ => ?_, fun n _ _ => ?_⟩
  · rw [State.grid_initial]
  · rw [State.grid_initial]
    exact ⟨rfl, rfl⟩
  · have unrecorded : (overlay k).recorded ((State.initial : State α V).grid x) n = false := by
      rw [LayeredTree.recorded, State.grid_initial]
      cases (overlay k).side n <;> rfl
    rw [unrecorded, State.grid_initial]
    exact reflexive false

/-- Every step keeps the records sound. -/
theorem Step.sound {s s' : State α V} {action : Action α} (sound : s.Sound k)
    (step : Step k s action s') : s'.Sound k := by
  intro x
  have law := sound x
  rw [step.grid x]
  cases step with
  | acquire member low =>
    simp only [Action.effect]
    split
    · exact law.take (fun _ => id) member (IndexService.isLeaf_iff.mp low) (by simp)
    · exact law
  | read => exact law
  | locate => exact law
  | task member fits _ =>
    simp only [Action.effect]
    split
    · refine LayeredTree.Arriving.dispatch (fun _ => id) _ ⟨law.but _, fun notRoot recorded => ?_⟩
        member fits (by simp)
      rw [law.edge _ member notRoot recorded, Bool.true_or]
    · exact law

/-- In every run the records are sound. -/
theorem sound_of_run {history : List (State α V × Action α)} {s : State α V}
    (run : (system α V k).Run history s) : s.Sound k :=
  run.invariant (P := State.Sound k) (fun x => law_initial (fun _ => id) x) fun sound step =>
    Step.sound sound step

/-! ## Records are exact -/

/-- The records about every element say exactly which children manage it. -/
def State.Routed (k : Nat) (s : State α V) : Prop := ∀ x, (overlay k).Routed (s.grid x)

/-- What a leaf lacks of a region is not managed-but-unallocated at a node that is not among the
leaf's ancestors. -/
def State.Collectable (k : Nat) (s : State α V) (leaf : HierarchyAddress) (region : Finset α) :
    Prop :=
  ∀ addr, InNetwork (2 ^ k) addr → ¬ (overlay k).Above addr leaf →
    (s.index addr).getManagedUnallocated (.create (2 ^ k) addr) region ⊆ (s.index leaf).full

/-- Every acquire of an action, plain or at the end of a task, can collect what it lacks. -/
def Action.Collectable (k : Nat) (s : State α V) : Action α → Prop
  | .acquire leaf region => s.Collectable k leaf region
  | .read _ _ => True
  | .locate _ _ => True
  | .task start path region =>
    ((overlay k).descend path start).isLeaf = true →
      s.Collectable k ((overlay k).descend path start) region

/-- Where everything can be collected no element that the leaf lacks is parked off its way. -/
theorem State.Collectable.parked {s : State α V} {leaf addr : HierarchyAddress}
    {region : Finset α} {x : α} (collectable : s.Collectable k leaf region)
    (wanted : x ∈ region) (member : (overlay k).Mem addr) (inner : (overlay k).layer addr ≠ 0)
    (off : ¬ (overlay k).Above addr leaf) (absent : (s.grid x leaf).held = false) :
    (s.grid x addr).parked ≠ true := by
  intro parked
  have found := collectable addr member off (IndexEntry.mem_getManagedUnallocated.mpr
    ⟨IndexService.isLeaf_false_iff.mpr inner, wanted, parked⟩)
  simp [found] at absent

/-- A task that starts below the root starts at a node that has parked what is missing. -/
theorem State.parked_of_begins {s : State α V} {start : HierarchyAddress} {region : Finset α}
    {x : α} (begins : start = getRootOfNetworkSize (2 ^ k) ∨
      (s.getMissingRegions (2 ^ k) start ⟨region, ∅, .readWrite⟩).1 = true)
    (notRoot : start ≠ (overlay k).root)
    (missing : x ∈ ((s.index start).getMissingRegion (.create (2 ^ k) start) region).1) :
    start.isLeaf = false ∧ (s.grid x start).parked = true := by
  have unallocated := begins.resolve_left notRoot
  rw [IndexEntry.getMissingRegion_of_unallocated unallocated] at missing
  obtain ⟨virtual, -, parked⟩ := IndexEntry.mem_getManagedUnallocated.mp missing
  exact ⟨virtual, parked⟩

/-- A step that can collect what it lacks keeps the records exact. -/
theorem Step.routed {s s' : State α V} {action : Action α} (routed : s.Routed k)
    (collectable : action.Collectable k s) (step : Step k s action s') : s'.Routed k := by
  intro x
  have law := routed x
  rw [step.grid x]
  cases step with
  | acquire member low =>
    simp only [Action.effect]
    split
    · exact law.take (fun _ => rfl) member (IndexService.isLeaf_iff.mp low)
        fun m node inner off absent parked =>
          absurd parked (collectable.parked ‹_› node inner off absent)
    · exact law
  | read => exact law
  | locate => exact law
  | @task start path region member fits begins =>
    simp only [Action.effect]
    split
    · rename_i wanted
      refine LayeredTree.Arriving.dispatch (fun _ => rfl) _ ⟨law.but _, fun notRoot => ?_⟩
        member fits fun m low node inner off absent parked =>
          absurd parked ((collectable (IndexService.isLeaf_iff.mpr low)).parked wanted node inner
            off absent)
      -- below the root only what the node manages already is allowed
      rw [law.edge _ member notRoot]
      by_cases allowed : x ∈ ((s.index start).getMissingRegion (.create (2 ^ k) start) region).1
      · have parked := (State.parked_of_begins begins notRoot allowed).2
        rw [Cell.managed_of_parked parked, Bool.true_or]
      · simp [allowed]
    · exact law

/-! ## Exclusive ownership -/

/-- No element is in `full_` of two different leaves. -/
def State.Exclusive (k : Nat) (s : State α V) : Prop :=
  ∀ x first second, InNetwork (2 ^ k) first → first.isLeaf = true → InNetwork (2 ^ k) second →
    second.isLeaf = true → x ∈ (s.index first).full → x ∈ (s.index second).full → first = second

/-- Exact records make ownership exclusive. -/
theorem State.Routed.exclusive {s : State α V} (routed : s.Routed k) : s.Exclusive k :=
  fun x _ _ member low member' low' held held' =>
    (routed x).held_unique member (IndexService.isLeaf_iff.mp low) (by simpa using held)
      member' (IndexService.isLeaf_iff.mp low') (by simpa using held')

/-- In a run whose acquires can collect what they lack, the records stay exact. -/
theorem routed_of_run {history : List (State α V × Action α)} {s : State α V}
    (run : (system α V k).Run history s)
    (collectable : System.Meets (fun s action => action.Collectable k s) history) :
    System.Always (State.Routed k) history s :=
  run.always (P := State.Routed k) (fun x => law_initial (fun _ => rfl) x)
    (fun routed met step => Step.routed routed met step) collectable

/-- In a run whose acquires can collect what they lack, no element is ever owned by two leaves. -/
theorem exclusive_of_run {history : List (State α V × Action α)} {s : State α V}
    (run : (system α V k).Run history s)
    (collectable : System.Meets (fun s action => action.Collectable k s) history) :
    System.Always (State.Exclusive k) history s :=
  (routed_of_run run collectable).imp fun _ routed => routed.exclusive

/-- In a network of two localities every acquire can collect what it lacks. -/
theorem State.collectable_two (s : State α V) {leaf : HierarchyAddress}
    (member : InNetwork (2 ^ 1) leaf) (region : Finset α) : s.Collectable 1 leaf region := by
  intro addr node off x found
  obtain ⟨virtual, -, -⟩ := IndexEntry.mem_getManagedUnallocated.mp found
  have inner : (overlay 1).layer addr ≠ 0 := IndexService.isLeaf_false_iff.mp virtual
  have height : (overlay 1).layer (overlay 1).root = 1 := rfl
  by_cases isRoot : addr = (overlay 1).root
  · exact absurd (isRoot ▸ LayeredTree.Above.root member) off
  · have low := (overlay 1).layer_lt_root node isRoot
    omega

/-- A task that ends at a leaf and an acquire at the other leaf of a network of two. -/
theorem exclusive_of_run_two :
    System.Always (State.Exclusive 1)
      [((State.initial.task 2 ⟨0, 1⟩ [.left] {0} : State Nat Unit),
          Action.acquire ⟨1, 0⟩ {0, 1}),
        (State.initial, Action.task ⟨0, 1⟩ [.left] {0})]
      ((State.initial.task 2 ⟨0, 1⟩ [.left] {0}).acquireReadWrite 2 ⟨1, 0⟩ {0, 1}) := by
  refine exclusive_of_run (run_acquire _ _ (run_task _ _ _ .start ?_ ?_ ?_) ?_ ?_) ?_
  · decide
  · decide
  · exact Or.inl (by decide)
  · decide
  · decide
  · simp only [System.Meets, List.forall_mem_cons]
    exact ⟨State.collectable_two _ (by decide) _,
      fun _ => State.collectable_two _ (by decide) _, by simp⟩

/-- On four localities a part that a task has left unallocated at an inner node is acquired at a
leaf of the other half and then handed down to a leaf of its own half. -/
theorem owned_twice : ¬ ∀ (history : List (State Nat Unit × Action Nat)) (s : State Nat Unit),
    (system Nat Unit 2).Run history s → s.Exclusive 2 := by
  intro claim
  have split := run_task (k := 2) (α := Nat) (V := Unit) ⟨0, 2⟩ [.left] {0} .start (by decide)
    (by decide) (Or.inl (by decide))
  have acquired := run_acquire ⟨2, 0⟩ {0} split (by decide) (by decide)
  have processed := run_task ⟨0, 1⟩ [.left] {0} acquired (by decide)
    (by decide) (Or.inr (by decide))
  have same := claim _ _ processed 0 ⟨0, 0⟩ ⟨2, 0⟩ (by decide) (by decide) (by decide)
    (by decide) (by decide) (by decide)
  exact absurd same (by decide)

end AllScale
