import AllScale.Lib.TokenLedger
import AllScale.DataItemManager.Caches

/-!
# Which lookups end

A lookup goes back and forth forever between a node and its parent when the parent has an
element on record for the node and the node has it on record for neither child. Acquires leave
no such node behind. A task leaves one when it splits: the allowance that arrives at an inner
node stays there unallocated while the parent has it on record. Lookups end in all states of a
run exactly if no task hands anything new to the inner node where it splits.
-/

namespace AllScale

open TokenTree HierarchyAddress Transition

variable {α V : Type} [DecidableEq α] {k : Nat}

/-- Every lookup returns: at every node, for every region. -/
def State.LookupsEnd (k : Nat) (s : State α V) : Prop :=
  ∀ addr region, InNetwork (2 ^ k) addr →
    ∃ fuel result, s.locate (2 ^ k) fuel addr region = some result

/-- A task that ends at an inner node below the root hands nothing new to it: what it looks up as
missing is on record for a child where it starts. -/
def Action.Delivered (k : Nat) (s : State α V) : Action α → Prop
  | .acquire _ _ => True
  | .read _ _ => True
  | .locate _ _ => True
  | .task start path region =>
    let last := (overlay k).descend path start
    last.isLeaf = false → last ≠ getRootOfNetworkSize (2 ^ k) →
      ((s.index start).getMissingRegion (.create (2 ^ k) start) region).1 ⊆
        (s.index start).left ∪ (s.index start).right

/-! ## Tidy states -/

/-- Exact records, sound caches and nothing unallocated below the root. -/
structure State.Tidy (k : Nat) (s : State α V) : Prop where
  /-- The records are exact. -/
  routed : s.Routed k
  /-- No inner node below the root manages an element without having allocated it. -/
  allocated : ∀ x addr, InNetwork (2 ^ k) addr → addr ≠ (overlay k).root →
    (overlay k).layer addr ≠ 0 → (s.grid x addr).parked = false
  /-- What is cached is owned. -/
  cached : s.CachesSound k

namespace State.Tidy

/-- The initial state is tidy. -/
theorem initial : (State.initial : State α V).Tidy k := by
  refine ⟨fun x => law_initial (fun _ => rfl) x, fun x addr _ _ _ => ?_, cachesSound_initial⟩
  rw [State.grid_initial]
  rfl

/-- In a tidy state every acquire can collect what it lacks. -/
theorem collectable {s : State α V} (tidy : s.Tidy k) {leaf : HierarchyAddress}
    (member : InNetwork (2 ^ k) leaf) (region : Finset α) : s.Collectable k leaf region := by
  intro addr node off x found
  obtain ⟨virtual, -, parked⟩ := IndexEntry.mem_getManagedUnallocated.mp found
  by_cases isRoot : addr = (overlay k).root
  · exact absurd (isRoot ▸ LayeredTree.Above.root member) off
  · have free := tidy.allocated x addr node isRoot (IndexService.isLeaf_false_iff.mp virtual)
    rw [State.grid_apply, parked] at free
    exact Bool.noConfusion free

/-- In a tidy state every step can collect what it lacks. -/
theorem collectable_of_step {s s' : State α V} (tidy : s.Tidy k) {action : Action α}
    (step : Step k s action s') : action.Collectable k s := by
  cases step with
  | acquire member _ => exact tidy.collectable member _
  | read => trivial
  | locate => trivial
  | task member fits _ =>
    exact fun _ => tidy.collectable ((overlay k).descend_spec _ member fits).1 _

/-- In a tidy state every record leads on. -/
theorem settled {s : State α V} (tidy : s.Tidy k) (x : α) : (overlay k).Settled (s.grid x) := by
  intro n member notRoot recorded
  have sound : (overlay k).Sound (s.grid x) :=
    ⟨(tidy.routed x).disjoint, (tidy.routed x).leaf, fun m node notRoot recorded =>
      (tidy.routed x).edge m node notRoot ▸ recorded⟩
  exact (sound.tracked_iff member notRoot recorded).mpr (tidy.allocated x n member notRoot)

/-- In a tidy state every lookup returns. -/
theorem lookupsEnd {s : State α V} (tidy : s.Tidy k) : s.LookupsEnd k := by
  intro addr region member
  obtain ⟨result, returned⟩ := State.locate_total member (Nat.lt_succ_self _)
    (fun x (_ : x ∈ region) => tidy.settled x)
  exact ⟨_, result, returned⟩

/-- Below the root a task of a tidy state has no place to start. -/
theorem starts_at_root {s : State α V} (tidy : s.Tidy k) {start : HierarchyAddress}
    {region : Finset α} {x : α} (member : InNetwork (2 ^ k) start)
    (begins : start = getRootOfNetworkSize (2 ^ k) ∨
      (s.getMissingRegions (2 ^ k) start ⟨region, ∅, .readWrite⟩).1 = true)
    (missing : x ∈ ((s.index start).getMissingRegion (.create (2 ^ k) start) region).1) :
    start = (overlay k).root := by
  by_contra notRoot
  obtain ⟨virtual, parked⟩ := State.parked_of_begins begins notRoot missing
  have free := tidy.allocated x start member notRoot (IndexService.isLeaf_false_iff.mp virtual)
  rw [parked] at free
  exact Bool.noConfusion free

/-- In a tidy state what arrives at a node below the root is exactly what is missing and not on
record where the task starts. -/
theorem arrives_iff {s : State α V} (tidy : s.Tidy k) {start : HierarchyAddress}
    {path : List Side} {region : Finset α} {x : α} (member : InNetwork (2 ^ k) start)
    (fits : path.length ≤ start.layer)
    (begins : start = getRootOfNetworkSize (2 ^ k) ∨
      (s.getMissingRegions (2 ^ k) start ⟨region, ∅, .readWrite⟩).1 = true) (wanted : x ∈ region)
    (low : (overlay k).descend path start ≠ (overlay k).root) :
    ((overlay k).passDown path (s.grid x) start (decide (x ∈ ((s.index start).getMissingRegion
        (.create (2 ^ k) start) region).1))).2 = true ↔
      x ∈ ((s.index start).getMissingRegion (.create (2 ^ k) start) region).1 ∧
        (s.grid x start).left = false ∧ (s.grid x start).right = false := by
  constructor
  · intro arrives
    by_cases stays : path = []
    · subst stays
      have missing := of_decide_eq_true arrives
      exact absurd (tidy.starts_at_root member begins missing) low
    · obtain ⟨m, above, below, different, parked | ⟨-, allowed, left, right⟩⟩ :=
        LayeredTree.passDown_source path member fits stays arrives
      · obtain ⟨last, -, onWay⟩ := (overlay k).descend_spec path member fits
        have node := below.mem last
        have inner : (overlay k).layer m ≠ 0 := by
          intro zero
          have depth := below.layer_le last
          exact different (below.eq_of_layer (.refl _) last (by omega))
        have isRoot : m = (overlay k).root := by
          by_contra notRoot
          rw [tidy.allocated x m node notRoot inner] at parked
          exact Bool.noConfusion parked
        -- nothing lies above the root
        have top : start = m := by
          by_contra away
          exact (above.parent_of_ne away).1 isRoot
        subst top
        have unallocated : x ∈ (s.index start).getManagedUnallocated (.create (2 ^ k) start)
            region := IndexEntry.mem_getManagedUnallocated.mpr
          ⟨IndexService.isLeaf_false_iff.mpr inner, wanted, parked⟩
        simp only [Cell.parked, Bool.and_eq_true, Bool.not_eq_true'] at parked
        refine ⟨?_, parked.1.2, parked.2⟩
        rw [IndexEntry.getMissingRegion, if_neg (Finset.ne_empty_of_mem wanted)]
        simpa only [if_pos (Finset.ne_empty_of_mem unallocated)] using unallocated
      · exact ⟨of_decide_eq_true allowed, left, right⟩
  · rintro ⟨missing, left, right⟩
    have isRoot := tidy.starts_at_root member begins missing
    refine (LayeredTree.passDown_arrives path ⟨(tidy.routed x).but start, fun notRoot =>
      absurd isRoot notRoot⟩ member fits fun _ => ⟨left, right⟩).2 (Or.inl (decide_eq_true missing))

end State.Tidy

/-! ## Which steps keep lookups ending -/

/-- A step that hands nothing new to an inner node keeps a state tidy. -/
theorem Step.tidy {s s' : State α V} {action : Action α} (tidy : s.Tidy k)
    (delivered : action.Delivered k s) (step : Step k s action s') : s'.Tidy k := by
  refine ⟨step.routed tidy.routed (tidy.collectable_of_step step),
    fun x addr member notRoot inner => ?_, step.cachesSound tidy.cached⟩
  have free := tidy.allocated x addr member notRoot inner
  rw [step.grid x]
  cases step with
  | acquire node low =>
    simp only [Action.effect]
    split
    · refine Bool.eq_false_iff.mpr fun parked => ?_
      have leaf : (overlay k).layer _ = 0 := IndexService.isLeaf_iff.mp low
      exact Bool.eq_false_iff.mp free
        (LayeredTree.parked_of_take (fun same => inner (same ▸ leaf)) parked)
    · exact free
  | read => exact free
  | locate => exact free
  | @task start path region node fits begins =>
    simp only [Action.effect]
    split
    · rename_i wanted
      refine Bool.eq_false_iff.mpr fun parked => Bool.eq_false_iff.mp free ?_
      rw [LayeredTree.dispatch] at parked
      -- before the acquire at a leaf
      have kept : (LayeredTree.keep ((overlay k).passDown path (s.grid x) start
          (decide (x ∈ ((s.index start).getMissingRegion (.create (2 ^ k) start) region).1))).1
            ((overlay k).descend path start) ((overlay k).passDown path (s.grid x) start
          (decide (x ∈ ((s.index start).getMissingRegion (.create (2 ^ k) start) region).1))).2
            addr).parked = true := by
        split at parked
        · rename_i low
          exact LayeredTree.parked_of_take (fun same => inner (same ▸ low)) parked
        · exact parked
      rw [LayeredTree.keep] at kept
      by_cases last : addr = (overlay k).descend path start
      · subst last
        have nothing : ((overlay k).passDown path (s.grid x) start
            (decide (x ∈ ((s.index start).getMissingRegion
              (.create (2 ^ k) start) region).1))).2 = false := by
          refine Bool.eq_false_iff.mpr fun arrives => ?_
          obtain ⟨missing, left, right⟩ :=
            (tidy.arrives_iff node fits begins wanted notRoot).mp arrives
          have recorded := delivered (IndexService.isLeaf_false_iff.mpr inner) notRoot missing
          rcases Finset.mem_union.mp recorded with onLeft | onRight
          · simp [onLeft] at left
          · simp [onRight] at right
        rw [nothing, Bool.or_false, Function.update_self] at kept
        exact LayeredTree.parked_of_passDown path kept
      · rw [Function.update_of_ne last] at kept
        exact LayeredTree.parked_of_passDown path kept
    · exact free

/-- When lookups still end after a step from a tidy state, the step has handed nothing new to an
inner node. -/
theorem State.Tidy.delivered {s s' : State α V} {action : Action α} (tidy : s.Tidy k)
    (step : Step k s action s') (ends : s'.LookupsEnd k) : action.Delivered k s := by
  have routed := step.routed tidy.routed (tidy.collectable_of_step step)
  cases step with
  | acquire => trivial
  | read => trivial
  | locate => trivial
  | @task start path region member fits begins =>
    intro virtual low x missing
    by_contra unrecorded
    have free : (s.grid x start).left = false ∧ (s.grid x start).right = false := by
      simpa [not_or] using unrecorded
    have wanted := IndexEntry.getMissingRegion_subset _ _ region missing
    have arrives := (tidy.arrives_iff member fits begins wanted low).mpr ⟨missing, free⟩
    have isRoot := tidy.starts_at_root member begins missing
    obtain ⟨node, -, -⟩ := (overlay k).descend_spec path member fits
    obtain ⟨t, allowed, result⟩ := State.task_spec s start path region member fits
    rw [if_neg (by simp [virtual])] at result
    rw [result] at routed ends
    have cell : t.grid x ((overlay k).descend path start) =
        { s.grid x ((overlay k).descend path start) with held := true } := by
      rw [allowed.kept x wanted, LayeredTree.keep, Function.update_self,
        LayeredTree.passDown_end path member fits, arrives, Bool.or_true]
    -- a node that is handed something new has no record of it
    have clean := (LayeredTree.passDown_arrives path ⟨(tidy.routed x).but start, fun notRoot =>
      absurd isRoot notRoot⟩ member fits fun _ => free).1 arrives
    have recorded : (overlay k).recorded (t.grid x) ((overlay k).descend path start) = true := by
      rw [(routed x).edge _ node low, cell]
      rfl
    have unowned : ∀ addr rank, InNetwork (2 ^ k) addr →
        ¬ (t.index addr).locationCache.Lists rank x := by
      intro addr rank place listed
      rw [allowed.caches] at listed
      obtain ⟨owner, full⟩ := tidy.cached addr rank x place listed
      have held : (s.grid x ⟨rank, 0⟩).held = true := by simpa using full
      have above : (overlay k).Above start ⟨rank, 0⟩ := by
        rw [isRoot]
        exact .root owner
      obtain ⟨managed, -⟩ := (tidy.routed x).trail_eq owner rfl held above
      rcases IndexEntry.cell_of_mem_getMissingRegion missing with ⟨inner, parked⟩ | absent
      · have leads := (tidy.routed x).parked_of_above owner rfl held above
          (IndexService.isLeaf_false_iff.mp inner)
        rw [State.grid_apply, parked] at leads
        exact Bool.noConfusion leads
      · rw [Cell.managed, free.1, free.2, State.grid_apply, absent] at managed
        exact Bool.noConfusion managed
    obtain ⟨fuel, result, returned⟩ := ends _ {x} node
    have looping : t.Looping k x ((overlay k).descend path start) := ⟨(routed x).disjoint, recorded,
      by rw [cell]; exact clean.1, by rw [cell]; exact clean.2, unowned⟩
    have diverges := (looping.locate_diverges fuel node low
      (IndexService.isLeaf_false_iff.mp virtual) (Finset.mem_singleton_self x)).1
    rw [diverges] at returned
    simp at returned

/-- In every run lookups end in all states exactly if no task hands anything new to the inner
node where it splits. -/
theorem lookups_end_run_iff {history : List (State α V × Action α)} {s : State α V}
    (run : (system α V k).Run history s) :
    System.Always (State.LookupsEnd k) history s ↔
      System.Meets (fun s action => action.Delivered k s) history :=
  run.always_iff_meets (I := State.Tidy k) .initial (fun _ tidy => tidy.lookupsEnd)
    (fun tidy delivered step => Step.tidy tidy delivered step)
    (fun tidy step ends => tidy.delivered step ends)

/-- A task that ends at a leaf, and one that splits with nothing but what that leaf owns. -/
theorem lookups_end_run_four :
    System.Always (State.LookupsEnd 2)
      [((State.initial.task 4 ⟨0, 2⟩ [.left, .left] {0} : State Nat Unit),
          Action.task ⟨0, 2⟩ [.left] {0}),
        (State.initial, Action.task ⟨0, 2⟩ [.left, .left] {0})]
      ((State.initial.task 4 ⟨0, 2⟩ [.left, .left] {0}).task 4 ⟨0, 2⟩ [.left] {0}) := by
  refine (lookups_end_run_iff (run_task _ _ _ (run_task _ _ _ .start ?_ ?_ ?_) ?_ ?_ ?_)).mpr ?_
  · decide
  · decide
  · exact Or.inl (by decide)
  · decide
  · decide
  · exact Or.inl (by decide)
  · simp only [System.Meets, List.forall_mem_cons]
    refine ⟨fun _ _ => ?_, fun virtual => ?_, by simp⟩
    · decide
    · exact absurd virtual (by decide)

/-- On four localities a task splits at an inner node below the root, and the lookup of its
region never returns there. -/
theorem lookup_without_end : ¬ ∀ (history : List (State Nat Unit × Action Nat))
    (s : State Nat Unit), (system Nat Unit 2).Run history s → s.LookupsEnd 2 := by
  intro claim
  have split := run_task (k := 2) (α := Nat) (V := Unit) ⟨0, 2⟩ [.left] {0} .start (by decide)
    (by decide) (Or.inl (by decide))
  have step : Step 2 (State.initial : State Nat Unit) (.task ⟨0, 2⟩ [.left] {0}) _ :=
    .task (by decide) (by decide) (Or.inl (by decide))
  have delivered := State.Tidy.initial.delivered step (claim _ _ split)
  exact absurd (delivered (by decide) (by decide)) (by decide)

end AllScale
