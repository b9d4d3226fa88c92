import AllScale.Lib.TokenDispatch

/-!
# Grids in which every node holds what it has on record

A grid is a ledger when its records are exact and every node with a record also holds the token:
then a node holds the token exactly when its parent has it on record there. Handing down keeps
a ledger. Taking at a leaf keeps it only in the two cases in which no ancestor has to give the
token up: the leaf holds it already, or its sibling does.
-/

namespace TokenTree.LayeredTree

open Function (update)

variable {ν : Type} {T : LayeredTree ν}

/-- Every node with a record holds the token. -/
def Covered (T : LayeredTree ν) (g : Grid ν) : Prop :=
  ∀ n s, T.Mem n → (g n).on s = true → (g n).held = true

/-- The records are exact and every node with a record holds the token. -/
structure Ledger (T : LayeredTree ν) (g : Grid ν) : Prop where
  /-- The records are exact. -/
  routed : T.Routed g
  /-- Every node with a record holds the token. -/
  covered : T.Covered g

/-- In a covered grid a node manages exactly what it holds. -/
theorem Covered.managed {g : Grid ν} (covered : T.Covered g) {n : ν} (member : T.Mem n) :
    (g n).managed = (g n).held := by
  have left := covered n .left member
  have right := covered n .right member
  simp only [Cell.on] at left right
  rw [Cell.managed]
  cases hl : (g n).left <;> cases hr : (g n).right <;> simp_all

/-- In a routed grid every node that manages the token lies above the leaf that holds it. -/
theorem Law.above_of_managed {g : Grid ν} (law : T.Routed g) {leaf : ν} (member : T.Mem leaf)
    (low : T.layer leaf = 0) (held : (g leaf).held = true) :
    ∀ n, T.Mem n → (g n).managed = true → T.Above n leaf := by
  -- downwards: a record about a node and the trail to the leaf leave through the same child
  refine T.induct_down (P := fun n => (g n).managed = true → T.Above n leaf)
    (fun _ => .root member) fun n node notRoot ih managed => ?_
  have high := T.parent_mem node notRoot
  have inner := T.layer_parent_ne_zero node notRoot
  have recorded : (g (T.parent n)).on (T.side n) = true :=
    (law.edge n node notRoot).trans managed
  have above := ih (Cell.managed_of_on recorded)
  have different : T.parent n ≠ leaf := fun h => inner (h ▸ low)
  obtain ⟨s, onWay⟩ := above.child_of_ne member different
  have there := (law.trail_eq member low held onWay).1
  rw [← law.edge _ (T.child_mem s high inner) (T.child_ne_root s high inner),
    T.recorded_child s high inner] at there
  by_cases same : s = T.side n
  · rwa [same, T.child_side node notRoot] at onWay
  · have other := (law.but n).on_other high there
    rw [Side.eq_other_of_ne same, Side.other_other, recorded] at other
    exact Bool.noConfusion other

variable [DecidableEq ν]

/-! ## Taking -/

/-- Where the sibling of a leaf holds the token, taking moves it from there to the leaf. -/
theorem take_of_sibling {g : Grid ν} (ledger : T.Ledger g) {leaf : ν} (member : T.Mem leaf)
    (low : T.layer leaf = 0) (notRoot : leaf ≠ T.root) (absent : (g leaf).held = false)
    (held : (g (T.sibling leaf)).held = true) : T.Ledger (T.take g leaf) := by
  obtain ⟨node, level, different, up⟩ := T.sibling_spec member notRoot
  have low' : T.layer (T.sibling leaf) = 0 := level.trans low
  have high := T.parent_mem member notRoot
  have inner := T.layer_parent_ne_zero member notRoot
  refine ⟨ledger.routed.take (fun _ => rfl) member low fun m place virtual off _ parked => ?_,
    fun n s place recorded => ?_⟩
  · -- every node that manages the token lies above the sibling, hence above the leaf
    have above := ledger.routed.above_of_managed node low' held m place
      (Cell.managed_of_parked parked)
    have away : m ≠ T.sibling leaf := fun h => virtual (h ▸ low')
    have shared := (above.parent_of_ne away).2
    rw [up] at shared
    exact absurd (shared.of_parent notRoot) off
  · -- only the records of the parent change, and the parent holds the token
    have taken : (g (T.parent leaf)).on (T.side leaf).other = true := by
      have edge := ledger.routed.edge _ node (T.child_ne_root _ high inner)
      rw [sibling, T.recorded_child _ high inner] at edge
      rw [edge, ← sibling, Cell.managed, held]
      rfl
    have parentHeld := ledger.covered _ _ high taken
    have result : T.take g leaf = update (update (update g leaf { g leaf with held := true })
        (T.parent leaf)
        (((g (T.parent leaf)).setOn (T.side leaf) true).setOn (T.side leaf).other false))
        (T.sibling leaf) { g (T.sibling leaf) with held := false } := by
      have away : T.parent leaf ≠ leaf := T.parent_ne_self member notRoot
      have away' : T.sibling leaf ≠ T.parent leaf := fun h => inner (h ▸ low')
      rw [take, absent]
      simp only [Bool.false_eq_true, ↓reduceIte, if_neg notRoot]
      rw [claim_of_taken (by rwa [Function.update_of_ne away]), ← sibling, low',
        Function.update_of_ne away, withdraw, Function.update_of_ne away',
        Function.update_of_ne different]
    rw [result] at recorded ⊢
    by_cases atSibling : n = T.sibling leaf
    · subst atSibling
      have flags := ledger.routed.leaf _ place low'
      cases s <;> simp [Cell.on, flags] at recorded
    · rw [Function.update_of_ne atSibling] at recorded ⊢
      by_cases atParent : n = T.parent leaf
      · subst atParent
        simpa using parentHeld
      · rw [Function.update_of_ne atParent] at recorded ⊢
        by_cases atLeaf : n = leaf
        · subst atLeaf
          simp
        · rw [Function.update_of_ne atLeaf] at recorded ⊢
          exact ledger.covered n s place recorded

/-- Where neither a leaf nor its sibling holds the token, taking leaves the parent of the leaf
with a record of what it does not hold. -/
theorem not_covered_take {g : Grid ν} (ledger : T.Ledger g) {leaf : ν} (member : T.Mem leaf)
    (notRoot : leaf ≠ T.root) (absent : (g leaf).held = false)
    (absent' : (g (T.sibling leaf)).held = false) : ¬ T.Covered (T.take g leaf) := by
  intro covered
  obtain ⟨node, -, -, -⟩ := T.sibling_spec member notRoot
  have high := T.parent_mem member notRoot
  have inner := T.layer_parent_ne_zero member notRoot
  have away : T.parent leaf ≠ leaf := T.parent_ne_self member notRoot
  have free : (update g leaf { g leaf with held := true } (T.parent leaf)).on
      (T.side leaf).other = false := by
    have edge := ledger.routed.edge _ node (T.child_ne_root _ high inner)
    rw [sibling, T.recorded_child _ high inner] at edge
    rw [Function.update_of_ne away, edge, ← sibling, ledger.covered.managed node, absent']
  have cell : T.take g leaf (T.parent leaf) =
      { (g (T.parent leaf)).setOn (T.side leaf) true with held := false } := by
    rw [take, absent]
    simp only [Bool.false_eq_true, ↓reduceIte, if_neg notRoot]
    by_cases isRoot : T.parent leaf = T.root
    · rw [isRoot] at free away ⊢
      rw [claim_of_root free, Function.update_self, Function.update_of_ne away]
    · have raised := T.layer_lt_root high isRoot
      obtain ⟨h, height⟩ := Nat.exists_eq_succ_of_ne_zero
        (show T.layer T.root - T.layer (T.parent leaf) ≠ 0 by omega)
      rw [height, claim_of_free free isRoot, claim_frame high _ _ _ _ (T.parent_mem high isRoot)
        (T.layer_parent_ne_zero high isRoot), Function.update_self, Function.update_of_ne away]
      rw [T.child_side high isRoot]
      exact .refl _
  have held := covered _ (T.side leaf) high (by rw [cell]; simp)
  rw [cell] at held
  exact Bool.noConfusion held

/-- Taking at a leaf keeps a ledger exactly if the leaf or its sibling holds the token or there
is no other leaf. -/
theorem ledger_take_iff {g : Grid ν} (ledger : T.Ledger g) {leaf : ν} (member : T.Mem leaf)
    (low : T.layer leaf = 0) :
    T.Ledger (T.take g leaf) ↔
      (g leaf).held = true ∨ leaf = T.root ∨ (g (T.sibling leaf)).held = true := by
  cases held : (g leaf).held with
  | true =>
    have same : T.take g leaf = g := by rw [take, if_pos held]
    simpa [same] using ledger
  | false =>
    by_cases isRoot : leaf = T.root
    · simp only [Bool.false_eq_true, false_or, isRoot, true_or, iff_true]
      rw [← isRoot]
      have lowest : T.layer T.root = 0 := isRoot ▸ low
      have only {n : ν} (node : T.Mem n) : n = T.root := T.eq_root_of_le node (by omega)
      refine ⟨ledger.routed.take (fun _ => rfl) member low fun m node inner _ _ _ =>
        absurd (only node ▸ isRoot ▸ low) inner, fun n s node recorded => ?_⟩
      rw [only node, ← isRoot]
      exact held_take member
    · cases held' : (g (T.sibling leaf)).held with
      | true =>
        simpa [isRoot] using take_of_sibling ledger member low isRoot held held'
      | false =>
        simpa [isRoot] using fun after =>
          not_covered_take ledger member isRoot held held' (Ledger.covered after)

/-! ## Handing down -/

/-- A node that grants holds what it has on record. -/
theorem Covered.grant {g : Grid ν} {n : ν} {s : Side} {allowed : Bool} (covered : T.Covered g) :
    T.Covered (update g n (grant (g n) s allowed).1) := by
  intro m t member recorded
  by_cases h : m = n
  · subst h
    have before := covered m t member
    rw [Function.update_self] at recorded ⊢
    revert before recorded
    generalize g m = c
    obtain ⟨held, left, right⟩ := c
    cases s <;> cases t <;> cases held <;> cases left <;> cases right <;> cases allowed <;> decide
  · rw [Function.update_of_ne h] at recorded ⊢
    exact covered m t member recorded

/-- Handing down keeps a grid covered. -/
theorem Covered.passDown (path : List Side) {g : Grid ν} {n : ν} {allowed : Bool}
    (covered : T.Covered g) : T.Covered (T.passDown path g n allowed).1 := by
  induction path generalizing g n allowed with
  | nil => exact covered
  | cons s path ih => exact ih covered.grant

/-- Keeping an allowance keeps a grid covered. -/
theorem Covered.keep {g : Grid ν} {n : ν} {allowed : Bool} (covered : T.Covered g) :
    T.Covered (keep g n allowed) := by
  intro m t member recorded
  by_cases h : m = n
  · subst h
    rw [LayeredTree.keep, Function.update_self] at recorded ⊢
    simp only [covered m t member (by simpa using recorded), Bool.true_or]
  · rw [LayeredTree.keep, Function.update_of_ne h] at recorded ⊢
    exact covered m t member recorded

/-- A node with neither record hands the token on when it holds it or is allowed it. -/
theorem grant_eq_true_iff {c : Cell} {s : Side} {allowed : Bool} :
    (grant c s allowed).2 = true ↔
      (c.left = false ∧ c.right = false) ∧ (c.held = true ∨ allowed = true) := by
  obtain ⟨held, left, right⟩ := c
  cases s <;> cases held <;> cases left <;> cases right <;> cases allowed <;> decide

/-- What arrives at the end of a path has been parked on the path or allowed at its start, by a
node without records. -/
theorem passDown_source (path : List Side) {g : Grid ν} {n : ν} {allowed : Bool}
    (member : T.Mem n) (fits : path.length ≤ T.layer n) (proper : path ≠ [])
    (arrives : (T.passDown path g n allowed).2 = true) :
    ∃ m, T.Above n m ∧ T.Above m (T.descend path n) ∧ m ≠ T.descend path n ∧
      ((g m).parked = true ∨
        m = n ∧ allowed = true ∧ (g n).left = false ∧ (g n).right = false) := by
  induction path generalizing g n allowed with
  | nil => exact absurd rfl proper
  | cons s path ih =>
    obtain ⟨inner, child, rest⟩ := step_down member fits
    obtain ⟨last, -, onWay⟩ := T.descend_spec path child rest
    have notLast := (descend_ne member fits).symm
    cases handed : (grant (g n) s allowed).2 with
    | true =>
      obtain ⟨⟨left, right⟩, source⟩ := grant_eq_true_iff.mp handed
      refine ⟨n, .refl n, onWay.of_child member inner, notLast, ?_⟩
      rcases source with held | given
      · exact Or.inl (by simp [Cell.parked, held, left, right])
      · exact Or.inr ⟨rfl, given, left, right⟩
    | false =>
      rw [LayeredTree.passDown, handed] at arrives
      have proper : path ≠ [] := by
        rintro rfl
        exact Bool.noConfusion arrives
      obtain ⟨m, above, under, different, parked | ⟨-, given, -⟩⟩ :=
        ih child rest proper arrives
      · refine ⟨m, above.of_child member inner, under, different, Or.inl ?_⟩
        have away := above.ne_of_child (under.mem last) member inner
        rwa [Function.update_of_ne away.symm] at parked
      · exact Bool.noConfusion given

/-- An allowance for a node without records arrives at the end of a path, and so does a token
that a node on the path has parked; it arrives at a node without records. -/
theorem passDown_arrives (path : List Side) {g : Grid ν} {n : ν} {allowed : Bool}
    (arriving : Arriving T (· = ·) n g allowed) (member : T.Mem n)
    (fits : path.length ≤ T.layer n)
    (fresh : allowed = true → (g n).left = false ∧ (g n).right = false) :
    ((T.passDown path g n allowed).2 = true →
        (g (T.descend path n)).left = false ∧ (g (T.descend path n)).right = false) ∧
      ((allowed = true ∨ ∃ m, T.Above n m ∧ T.Above m (T.descend path n) ∧
        m ≠ T.descend path n ∧ (g m).parked = true) →
        (T.passDown path g n allowed).2 = true) := by
  induction path generalizing g n allowed with
  | nil =>
    refine ⟨fresh, ?_⟩
    rintro (arrives | ⟨m, above, below, different, -⟩)
    · exact arrives
    · -- no node lies strictly between a node and itself
      exact absurd (above.antisymm below member) different
  | cons s path ih =>
    obtain ⟨inner, child, rest⟩ := step_down member fits
    have low := T.child_ne_self s member inner
    have freshChild : (grant (g n) s allowed).2 = true →
        (update g n (grant (g n) s allowed).1 (T.child s n)).left = false ∧
          (update g n (grant (g n) s allowed).1 (T.child s n)).right = false := by
      intro handed
      have unmanaged := arriving.but.edge _ child (T.child_ne_root s member inner) low
      rw [T.recorded_child s member inner, (free_of_grant handed).1, Cell.managed] at unmanaged
      have flags := unmanaged.symm
      rw [Bool.or_eq_false_iff, Bool.or_eq_false_iff] at flags
      rw [Function.update_of_ne low]
      exact ⟨flags.1.2, flags.2⟩
    obtain ⟨clean, source⟩ :=
      ih (arriving.grant s rfl member inner) child rest freshChild
    rw [LayeredTree.passDown, descend]
    refine ⟨fun arrives => ?_, ?_⟩
    · have flags := clean arrives
      rwa [Function.update_of_ne (descend_ne member fits)] at flags
    · rintro (given | ⟨m, above, under, different, parked⟩)
      · exact source (Or.inl (grant_eq_true_iff.mpr ⟨fresh given, Or.inr given⟩))
      · by_cases here : m = n
        · subst here
          simp only [Cell.parked, Bool.and_eq_true, Bool.not_eq_true'] at parked
          exact source (Or.inl (grant_eq_true_iff.mpr
            ⟨⟨parked.1.2, parked.2⟩, Or.inl parked.1.1⟩))
        · have through := above_of_descend member fits above under (Ne.symm here)
          refine source (Or.inr ⟨m, through, under, different, ?_⟩)
          rwa [Function.update_of_ne here]

/-- An allowance for a node without records arrives at the end of a path, and what arrives there
has been allowed or was parked on the path. -/
theorem passDown_arrives_iff (path : List Side) {g : Grid ν} {n : ν} {allowed : Bool}
    (arriving : Arriving T (· = ·) n g allowed) (member : T.Mem n)
    (fits : path.length ≤ T.layer n)
    (fresh : allowed = true → (g n).left = false ∧ (g n).right = false) :
    (T.passDown path g n allowed).2 = true ↔
      allowed = true ∨ ∃ m, T.Above n m ∧ T.Above m (T.descend path n) ∧
        m ≠ T.descend path n ∧ (g m).parked = true := by
  refine ⟨fun arrives => ?_, (passDown_arrives path arriving member fits fresh).2⟩
  by_cases stays : path = []
  · subst stays
    exact Or.inl arrives
  · obtain ⟨m, above, under, different, parked | ⟨-, given, -⟩⟩ :=
      passDown_source path member fits stays arrives
    · exact Or.inr ⟨m, above, under, different, parked⟩
    · exact Or.inl given

/-- Dispatching from a node that may keep its allowance keeps a ledger exactly if it ends at an
inner node, or the leaf or its sibling holds the token, or the token arrives at the leaf, or there
is no other leaf. -/
theorem ledger_dispatch_iff (path : List Side) {g : Grid ν} {n : ν} (ledger : T.Ledger g)
    (member : T.Mem n) (fits : path.length ≤ T.layer n) (allowed : Bool)
    (due : n ≠ T.root → allowed = true → (g n).held = true)
    (fresh : allowed = true → (g n).left = false ∧ (g n).right = false) :
    T.Ledger (T.dispatch path g n allowed) ↔
      (T.layer (T.descend path n) = 0 →
        (g (T.descend path n)).held = true ∨ T.descend path n = T.root ∨
          (g (T.sibling (T.descend path n))).held = true ∨ allowed = true ∨
          ∃ m, T.Above n m ∧ T.Above m (T.descend path n) ∧ m ≠ T.descend path n ∧
            (g m).parked = true) := by
  obtain ⟨node, -, -⟩ := T.descend_spec path member fits
  have arriving : Arriving T (· = ·) n g allowed := by
    refine ⟨ledger.routed.but n, fun notRoot => ?_⟩
    rw [ledger.routed.edge n member notRoot, ledger.covered.managed member]
    cases given : allowed with
    | true => rw [due notRoot given, Bool.true_or]
    | false => rw [Bool.or_false]
  have kept : T.Ledger (keep (T.passDown path g n allowed).1 (T.descend path n)
      (T.passDown path g n allowed).2) :=
    ⟨(arriving.passDown rfl path member fits).keep, (ledger.covered.passDown path).keep⟩
  rw [dispatch]
  by_cases low : T.layer (T.descend path n) = 0
  · have spared (notRoot : T.descend path n ≠ T.root) :
        (keep (T.passDown path g n allowed).1 (T.descend path n)
          (T.passDown path g n allowed).2 (T.sibling (T.descend path n))).held =
          (g (T.sibling (T.descend path n))).held := by
      obtain ⟨-, level, different, -⟩ := T.sibling_spec node notRoot
      rw [LayeredTree.keep, Function.update_of_ne different,
        passDown_frame path member fits fun above =>
          different (above.eq_of_layer (.refl _) node level)]
    have reached : (keep (T.passDown path g n allowed).1 (T.descend path n)
        (T.passDown path g n allowed).2 (T.descend path n)).held =
        ((g (T.descend path n)).held || (T.passDown path g n allowed).2) := by
      rw [LayeredTree.keep, Function.update_self, passDown_end path member fits]
    simp only [low, ↓reduceIte, forall_const]
    rw [ledger_take_iff kept node low, reached, Bool.or_eq_true,
      passDown_arrives_iff path arriving member fits fresh]
    by_cases isRoot : T.descend path n = T.root
    · simp [isRoot]
    · rw [spared isRoot, or_assoc]
      simp only [isRoot, false_or]
      exact or_congr_right or_comm
  · simpa [low] using kept

end TokenTree.LayeredTree
