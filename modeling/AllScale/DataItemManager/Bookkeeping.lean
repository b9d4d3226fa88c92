import AllScale.Lib.TokenLedger
import AllScale.DataItemManager.Scheduling

/-!
# Bookkeeping of inner nodes

The law that `full_` of a node is everything managed below it ties three fields together: a node
has in `full_` what it has on record, and what it has on record for a child is `full_` of that
child. Handing allowances down keeps the law. The cascade of an acquire breaks it at the first
node that does not have the acquired part on record for its other child, since it takes the part
out of `full_` there while recording it; only a part that moves between two sibling leaves is
spared.
-/

namespace AllScale

open TokenTree HierarchyAddress Transition

variable {α V : Type} [DecidableEq α] {k : Nat}

/-- The bookkeeping law of the inner nodes. -/
structure State.Bookkept (k : Nat) (s : State α V) : Prop where
  /-- What is on record is in `full_`. -/
  within : ∀ addr, InNetwork (2 ^ k) addr → addr.isLeaf = false →
    (s.index addr).left ∪ (s.index addr).right ⊆ (s.index addr).full
  /-- The record for a left child is its `full_`. -/
  left : ∀ addr, InNetwork (2 ^ k) addr → addr.isLeaf = false →
    (s.index addr).left = (s.index addr.getLeftChild).full
  /-- The record for a right child is its `full_`. -/
  right : ∀ addr, InNetwork (2 ^ k) addr → addr.isLeaf = false →
    (s.index addr).right = (s.index addr.getRightChild).full
  /-- What a leaf below a node owns is not reported missing at the node. -/
  reported : ∀ addr leaf region x, InNetwork (2 ^ k) leaf → leaf.isLeaf = true →
    (overlay k).Above addr leaf → x ∈ (s.index leaf).full →
    x ∉ ((s.index addr).getMissingRegion (.create (2 ^ k) addr) region).1

/-- With exact records that are all held, the bookkeeping law holds. -/
theorem bookkept_of_ledger {s : State α V} (ledger : ∀ x, (overlay k).Ledger (s.grid x)) :
    s.Bookkept k := by
  have child (side : Side) {addr : HierarchyAddress} (member : InNetwork (2 ^ k) addr)
      (virtual : addr.isLeaf = false) (x : α) :
      (s.grid x addr).on side = true ↔ x ∈ (s.index ((overlay k).child side addr)).full := by
    have inner : (overlay k).layer addr ≠ 0 := IndexService.isLeaf_false_iff.mp virtual
    have node := (overlay k).child_mem side member inner
    have edge := (ledger x).routed.edge _ node ((overlay k).child_ne_root side member inner)
    rw [(overlay k).recorded_child side member inner, (ledger x).covered.managed node] at edge
    rw [edge]
    simp
  refine ⟨fun addr member _ x found => ?_, fun addr member virtual => ?_,
    fun addr member virtual => ?_, fun addr leaf region x member low above owned missing => ?_⟩
  · rcases Finset.mem_union.mp found with found | found
    · simpa using (ledger x).covered addr .left member (by simpa [Cell.on] using found)
    · simpa using (ledger x).covered addr .right member (by simpa [Cell.on] using found)
  · ext x
    refine Iff.trans ?_ (child .left member virtual x)
    simp [Cell.on]
  · ext x
    refine Iff.trans ?_ (child .right member virtual x)
    simp [Cell.on]
  · have flat : (overlay k).layer leaf = 0 := IndexService.isLeaf_iff.mp low
    have held : (s.grid x leaf).held = true := by simpa using owned
    rcases IndexEntry.cell_of_mem_getMissingRegion missing with ⟨virtual, parked⟩ | absent
    · have free := (ledger x).routed.parked_of_above member flat held above
        (IndexService.isLeaf_false_iff.mp virtual)
      rw [State.grid_apply, parked] at free
      exact Bool.noConfusion free
    · have managed := ((ledger x).routed.trail_eq member flat held above).1
      rw [(ledger x).covered.managed (above.mem member), State.grid_apply, absent] at managed
      exact Bool.noConfusion managed

/-- With sound records, the bookkeeping law makes the records exact and held. -/
theorem ledger_of_bookkept {s : State α V} (sound : s.Sound k) (bookkept : s.Bookkept k) (x : α) :
    (overlay k).Ledger (s.grid x) := by
  have record (side : Side) {addr : HierarchyAddress} (member : InNetwork (2 ^ k) addr)
      (virtual : addr.isLeaf = false) :
      (s.grid x addr).on side = (s.grid x ((overlay k).child side addr)).held := by
    cases side with
    | left =>
      have same := bookkept.left addr member virtual
      simp only [Cell.on, State.grid_apply, IndexEntry.left_cell, IndexEntry.held_cell, same]
      rfl
    | right =>
      have same := bookkept.right addr member virtual
      simp only [Cell.on, State.grid_apply, IndexEntry.right_cell, IndexEntry.held_cell, same]
      rfl
  have covered : (overlay k).Covered (s.grid x) := by
    intro addr side member recorded
    cases virtual : addr.isLeaf with
    | true =>
      have flags := (sound x).leaf addr member (IndexService.isLeaf_iff.mp virtual)
      cases side <;> simp only [Cell.on, flags, Bool.false_eq_true] at recorded
    | false =>
      have inside := bookkept.within addr member virtual
      cases side with
      | left =>
        have found : x ∈ (s.index addr).left := by simpa [Cell.on] using recorded
        simpa using inside (Finset.mem_union_left _ found)
      | right =>
        have found : x ∈ (s.index addr).right := by simpa [Cell.on] using recorded
        simpa using inside (Finset.mem_union_right _ found)
  refine ⟨⟨(sound x).disjoint, (sound x).leaf, fun addr member notRoot => ?_⟩, covered⟩
  have high := (overlay k).parent_mem member notRoot
  have virtual :=
    IndexService.isLeaf_false_iff.mpr ((overlay k).layer_parent_ne_zero member notRoot)
  rw [covered.managed member, LayeredTree.recorded, record _ high virtual,
    (overlay k).child_side member notRoot]

/-! ## Which steps keep the law -/

/-- Acquiring an element at a leaf takes it out of no inner node: the leaf has it, or its sibling
has it, or there is no inner node. -/
def State.Balanced (k : Nat) (s : State α V) (leaf : HierarchyAddress) (x : α) : Prop :=
  x ∈ (s.index leaf).full ∨ leaf = getRootOfNetworkSize (2 ^ k) ∨
    x ∈ (s.index ((overlay k).sibling leaf)).full

/-- Every element that an action acquires at a leaf is balanced there, or is handed down to the
leaf: it is missing where the task starts, or unallocated at a node on the path. -/
def Action.Balanced (k : Nat) (s : State α V) : Action α → Prop
  | .acquire leaf region => ∀ x ∈ region, s.Balanced k leaf x
  | .read _ _ => True
  | .locate _ _ => True
  | .task start path region =>
    let leaf := (overlay k).descend path start
    leaf.isLeaf = true → ∀ x ∈ region, s.Balanced k leaf x ∨
      x ∈ ((s.index start).getMissingRegion (.create (2 ^ k) start) region).1 ∨
      ∃ addr, (overlay k).Above start addr ∧ (overlay k).Above addr leaf ∧
        x ∈ (s.index addr).getManagedUnallocated (.create (2 ^ k) addr) region

/-- Nodes that have parked an element above a leaf are those that manage it unallocated. -/
theorem parked_iff {s : State α V} {leaf addr : HierarchyAddress} {region : Finset α} {x : α}
    (low : (overlay k).layer leaf = 0) (wanted : x ∈ region) (above : (overlay k).Above addr leaf)
    (node : (overlay k).Mem leaf) :
    addr ≠ leaf ∧ (s.grid x addr).parked = true ↔
      x ∈ (s.index addr).getManagedUnallocated (.create (2 ^ k) addr) region := by
  rw [IndexEntry.mem_getManagedUnallocated]
  constructor
  · rintro ⟨different, parked⟩
    have inner : (overlay k).layer addr ≠ 0 := fun flat =>
      different (above.eq_of_layer (.refl leaf) node (flat.trans low.symm))
    exact ⟨IndexService.isLeaf_false_iff.mpr inner, wanted, parked⟩
  · rintro ⟨virtual, -, parked⟩
    have inner : (overlay k).layer addr ≠ 0 := IndexService.isLeaf_false_iff.mp virtual
    exact ⟨fun same => inner (same ▸ low), parked⟩

/-- What is missing at a node is on record for none of its children. -/
theorem unrecorded_of_missing {s : State α V} {start : HierarchyAddress} {region : Finset α} {x : α}
    (ledger : (overlay k).Ledger (s.grid x)) (member : (overlay k).Mem start)
    (missing : x ∈ ((s.index start).getMissingRegion (.create (2 ^ k) start) region).1) :
    (s.grid x start).left = false ∧ (s.grid x start).right = false := by
  rcases IndexEntry.cell_of_mem_getMissingRegion missing with ⟨-, parked⟩ | absent
  · simp only [Cell.parked, Bool.and_eq_true, Bool.not_eq_true'] at parked
    exact ⟨parked.1.2, parked.2⟩
  · have unmanaged := ledger.covered.managed member
    rw [State.grid_apply, absent, Cell.managed, Bool.or_eq_false_iff,
      Bool.or_eq_false_iff] at unmanaged
    exact ⟨unmanaged.1.2, unmanaged.2⟩

/-- The bookkeeping law holds after a step if it does for what the step makes of each element. -/
theorem Step.bookkept_iff_effect {s s' : State α V} {action : Action α} (sound : s.Sound k)
    (step : Step k s action s') :
    s'.Bookkept k ↔ ∀ x, (overlay k).Ledger (action.effect k s x) := by
  constructor
  · intro law x
    rw [← step.grid x]
    exact ledger_of_bookkept (Step.sound sound step) law x
  · intro law
    exact bookkept_of_ledger fun x => (step.grid x).symm ▸ law x

/-- Where only the elements of a region change, they alone decide about the bookkeeping law. -/
theorem ledger_region_iff {s : State α V} {region : Finset α} {g : α → Grid HierarchyAddress}
    {Q : α → Prop} (ledger : ∀ x, (overlay k).Ledger (s.grid x))
    (inside : ∀ x ∈ region, ((overlay k).Ledger (g x) ↔ Q x)) :
    (∀ x, (overlay k).Ledger (if x ∈ region then g x else s.grid x)) ↔ ∀ x ∈ region, Q x := by
  constructor
  · intro all x wanted
    have law := all x
    rw [if_pos wanted] at law
    exact (inside x wanted).mp law
  · intro all x
    split
    · exact (inside x ‹_›).mpr (all x ‹_›)
    · exact ledger x

/-- The dispatch of a task keeps the law of an element of its region exactly if the element is
balanced, missing or parked where the task is executed, provided that this is a leaf. -/
theorem ledger_task_iff {s : State α V} {start : HierarchyAddress} {path : List Side}
    {region : Finset α} {x : α} (ledger : (overlay k).Ledger (s.grid x))
    (member : (overlay k).Mem start) (fits : path.length ≤ (overlay k).layer start)
    (begins : start = getRootOfNetworkSize (2 ^ k) ∨
      (s.getMissingRegions (2 ^ k) start ⟨region, ∅, .readWrite⟩).1 = true)
    (wanted : x ∈ region) :
    (overlay k).Ledger ((overlay k).dispatch path (s.grid x) start
        (decide (x ∈ ((s.index start).getMissingRegion (.create (2 ^ k) start) region).1))) ↔
      ((overlay k).layer ((overlay k).descend path start) = 0 →
        s.Balanced k ((overlay k).descend path start) x ∨
          x ∈ ((s.index start).getMissingRegion (.create (2 ^ k) start) region).1 ∨
          ∃ addr, (overlay k).Above start addr ∧
            (overlay k).Above addr ((overlay k).descend path start) ∧
            x ∈ (s.index addr).getManagedUnallocated (.create (2 ^ k) addr) region) := by
  obtain ⟨node, -, -⟩ := (overlay k).descend_spec path member fits
  rw [LayeredTree.ledger_dispatch_iff path ledger member fits]
  · refine imp_congr_right fun low => ?_
    have unallocated : (∃ addr, (overlay k).Above start addr ∧
        (overlay k).Above addr ((overlay k).descend path start) ∧
        addr ≠ (overlay k).descend path start ∧ (s.grid x addr).parked = true) ↔
        ∃ addr, (overlay k).Above start addr ∧
          (overlay k).Above addr ((overlay k).descend path start) ∧
          x ∈ (s.index addr).getManagedUnallocated (.create (2 ^ k) addr) region :=
      exists_congr fun addr => and_congr_right fun _ => and_congr_right fun above =>
        parked_iff low wanted above node
    rw [unallocated]
    simp only [decide_eq_true_eq, State.Balanced, or_assoc, State.grid_apply, IndexEntry.held_cell]
    rfl
  · -- below the root only what the node has parked is allowed
    intro notRoot allowed
    have parked := (State.parked_of_begins begins notRoot (of_decide_eq_true allowed)).2
    simp only [Cell.parked, Bool.and_eq_true] at parked
    exact parked.1.1
  · exact fun allowed => unrecorded_of_missing ledger member (of_decide_eq_true allowed)

/-- A step keeps the bookkeeping law exactly if everything it acquires is balanced. -/
theorem Step.bookkept_iff {s s' : State α V} {action : Action α} (sound : s.Sound k)
    (bookkept : s.Bookkept k) (step : Step k s action s') :
    s'.Bookkept k ↔ action.Balanced k s := by
  have ledger := ledger_of_bookkept sound bookkept
  rw [Step.bookkept_iff_effect sound step]
  cases step with
  | @acquire leaf region member low =>
    refine ledger_region_iff ledger fun x _ => ?_
    rw [LayeredTree.ledger_take_iff (ledger x) member (IndexService.isLeaf_iff.mp low)]
    simp only [State.grid_apply, IndexEntry.held_cell, decide_eq_true_eq]
    rfl
  | read => exact ⟨fun _ => trivial, fun _ => ledger⟩
  | locate => exact ⟨fun _ => trivial, fun _ => ledger⟩
  | @task start path region member fits begins =>
    refine (ledger_region_iff ledger fun x wanted =>
      ledger_task_iff (ledger x) member fits begins wanted).trans ?_
    constructor
    · exact fun all low x wanted => all x wanted (IndexService.isLeaf_iff.mp low)
    · exact fun all x wanted low => all (IndexService.isLeaf_iff.mpr low) x wanted

/-- In every run the bookkeeping law holds in all states exactly if everything acquired at a
leaf is balanced there when the step is taken. -/
theorem bookkept_run_iff {history : List (State α V × Action α)} {s : State α V}
    (run : (system α V k).Run history s) :
    System.Always (State.Bookkept k) history s ↔
      System.Meets (fun s action => action.Balanced k s) history := by
  refine run.always_iff (J := State.Sound k) (fun x => law_initial (fun _ => id) x)
    (fun sound step => Step.sound sound step)
    (bookkept_of_ledger fun x => ⟨law_initial (fun _ => rfl) x, ?_⟩)
    (fun sound bookkept step => Step.bookkept_iff sound bookkept step)
  intro addr side _ recorded
  rw [show (system α V k).start.grid x addr = _ from State.grid_initial x addr] at recorded
  cases side <;> exact Bool.noConfusion recorded

/-- A task that ends at a leaf, whose sibling then acquires the same element. -/
theorem bookkept_run_two :
    System.Always (State.Bookkept 1)
      [((State.initial.task 2 ⟨0, 1⟩ [.left] {0} : State Nat Unit), Action.acquire ⟨1, 0⟩ {0}),
        (State.initial, Action.task ⟨0, 1⟩ [.left] {0})]
      ((State.initial.task 2 ⟨0, 1⟩ [.left] {0}).acquireReadWrite 2 ⟨1, 0⟩ {0}) := by
  refine (bookkept_run_iff (run_acquire _ _ (run_task _ _ _ .start ?_ ?_ ?_) ?_ ?_)).mpr ?_
  · decide
  · decide
  · exact Or.inl (by decide)
  · decide
  · decide
  · simp only [System.Meets, List.forall_mem_cons]
    refine ⟨fun x wanted => Or.inr (Or.inr ?_), fun _ x wanted => Or.inr (Or.inl ?_), by simp⟩
    · obtain rfl := Finset.mem_singleton.mp wanted
      decide
    · obtain rfl := Finset.mem_singleton.mp wanted
      decide

/-- On two localities a plain acquire leaves the root with a record of what it does not hold. -/
theorem not_bookkept : ¬ ∀ (history : List (State Nat Unit × Action Nat)) (s : State Nat Unit),
    (system Nat Unit 1).Run history s → s.Bookkept 1 := by
  intro claim
  have acquired := run_acquire (k := 1) (α := Nat) (V := Unit) ⟨0, 0⟩ {0} .start (by decide)
    (by decide)
  have within := (claim _ _ acquired).within ⟨0, 1⟩ (by decide) (by decide)
  exact absurd within (by decide)

end AllScale
