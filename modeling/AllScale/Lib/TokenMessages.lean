import AllScale.Lib.TokenDispatch

/-!
# Taking a token by messages

When taking a token is split into messages, many of them can be in flight at once: a claim on
its way from a node to its parent, a withdrawal on its way to a node. `Flow` counts them on the
edges of the tree: a node manages the token exactly if its parent has it on record there, or a
claim of the node has not reached the parent yet, or a withdrawal from the parent has not
reached the node yet, and only one of the three at a time. Every delivery keeps the count. With
no message in flight the count says that the grid is routed.
-/

namespace TokenTree.LayeredTree

open Function (update)

variable {ν : Type}

/-- What holds of a grid and of the numbers of claims and withdrawals in flight for each node. -/
structure Flow (T : LayeredTree ν) (g : Grid ν) (claims withdrawals : ν → Nat) : Prop where
  /-- No token is on record on both sides. -/
  disjoint : ∀ n, T.Mem n → (g n).left = true → (g n).right = false
  /-- A leaf has no records. -/
  leaf : ∀ n, T.Mem n → T.layer n = 0 → (g n).left = false ∧ (g n).right = false
  /-- An inner node does not hold the token itself. -/
  virtual : ∀ n, T.Mem n → T.layer n ≠ 0 → (g n).held = false
  /-- A node that manages the token is on record, or about to be, or about to lose it. -/
  edge : ∀ n, T.Mem n → n ≠ T.root →
    (T.recorded g n).toNat + claims n + withdrawals n = (g n).managed.toNat
  /-- What is being withdrawn is managed further up. -/
  above : ∀ n, T.Mem n → withdrawals n ≠ 0 →
    ∃ a, T.Above a n ∧ a ≠ n ∧ (g a).managed = true

/-- Some node manages the token. -/
def Alive (T : LayeredTree ν) (g : Grid ν) : Prop := ∃ n, T.Mem n ∧ (g n).managed = true

variable {T : LayeredTree ν} {g : Grid ν} {claims claims' withdrawals withdrawals' : ν → Nat}

namespace Flow

/-- Only the claims of nodes that have a parent count. -/
theorem of_claims (flow : T.Flow g claims withdrawals)
    (same : ∀ n, n ≠ T.root → claims' n = claims n) : T.Flow g claims' withdrawals := by
  refine ⟨flow.disjoint, flow.leaf, flow.virtual, fun n node notRoot => ?_, flow.above⟩
  rw [same n notRoot]
  exact flow.edge n node notRoot

/-- The records of a node read from one of its sides. -/
theorem on_other (flow : T.Flow g claims withdrawals) {n : ν} {s : Side} (member : T.Mem n)
    (set : (g n).on s = true) : (g n).on s.other = false :=
  Cell.on_other (flow.disjoint n member) set

/-- At most one message is in flight about a node. It manages the token then and is not on
record. -/
theorem of_message (flow : T.Flow g claims withdrawals) {n : ν} (member : T.Mem n)
    (notRoot : n ≠ T.root) (sent : claims n + withdrawals n ≠ 0) :
    T.recorded g n = false ∧ claims n + withdrawals n = 1 ∧ (g n).managed = true := by
  have count := flow.edge n member notRoot
  have few := Bool.toNat_le (g n).managed
  have unrecorded : (T.recorded g n).toNat = 0 := by omega
  have managed : (g n).managed.toNat = 1 := by omega
  exact ⟨Bool.toNat_eq_zero.mp unrecorded, by omega, Bool.toNat_eq_one.mp managed⟩

/-- A claim in flight belongs to a node that manages the token and is not on record. -/
theorem of_claim (flow : T.Flow g claims withdrawals) {n : ν} (member : T.Mem n)
    (notRoot : n ≠ T.root) (sent : claims n ≠ 0) :
    T.recorded g n = false ∧ claims n = 1 ∧ withdrawals n = 0 ∧ (g n).managed = true := by
  obtain ⟨unrecorded, one, managed⟩ := flow.of_message member notRoot (by omega)
  exact ⟨unrecorded, by omega, by omega, managed⟩

/-- A withdrawal in flight goes to a node that manages the token and is not on record. -/
theorem of_withdrawal (flow : T.Flow g claims withdrawals) {n : ν} (member : T.Mem n)
    (notRoot : n ≠ T.root) (sent : withdrawals n ≠ 0) :
    T.recorded g n = false ∧ claims n = 0 ∧ withdrawals n = 1 ∧ (g n).managed = true := by
  obtain ⟨unrecorded, one, managed⟩ := flow.of_message member notRoot (by omega)
  exact ⟨unrecorded, by omega, by omega, managed⟩

/-- An inner node that a withdrawal reaches has the token on record. -/
theorem recorded_of_withdrawal (flow : T.Flow g claims withdrawals) {n : ν} (member : T.Mem n)
    (inner : T.layer n ≠ 0) (notRoot : n ≠ T.root) (sent : withdrawals n ≠ 0) :
    (g n).left = true ∨ (g n).right = true := by
  have managed := (flow.of_withdrawal member notRoot sent).2.2.2
  rw [Cell.managed, flow.virtual n member inner, Bool.false_or, Bool.or_eq_true] at managed
  exact managed

/-- With no message in flight the grid is routed. -/
theorem routed (flow : T.Flow g claims withdrawals)
    (quiet : ∀ n, T.Mem n → n ≠ T.root → claims n = 0 ∧ withdrawals n = 0) : T.Routed g := by
  refine ⟨flow.disjoint, flow.leaf, fun n member notRoot => ?_⟩
  have count := flow.edge n member notRoot
  obtain ⟨noClaim, noWithdrawal⟩ := quiet n member notRoot
  rw [noClaim, noWithdrawal, Nat.add_zero] at count
  cases recorded : T.recorded g n <;> cases managed : (g n).managed <;>
    rw [recorded, managed] at count <;> first | rfl | exact absurd count (by decide)

variable [DecidableEq ν]

/-- Where a new cell still manages the token, nothing is managed less. -/
theorem managed_update {n m : ν} {c : Cell} (still : c.managed = true)
    (managed : (g m).managed = true) : (update g n c m).managed = true := by
  by_cases same : m = n
  · rw [same, Function.update_self]
    exact still
  · rwa [Function.update_of_ne same]

/-- What is alive stays alive where a new cell manages the token. -/
theorem alive_update {n : ν} {c : Cell} (member : T.Mem n) (still : c.managed = true) :
    T.Alive (update g n c) := by
  refine ⟨n, member, ?_⟩
  rw [Function.update_self]
  exact still

/-! ## Replacing one cell -/

omit [DecidableEq ν] in
/-- The edge from a node to its child. -/
theorem edge_child (flow : T.Flow g claims withdrawals) {p : ν} (member : T.Mem p)
    (inner : T.layer p ≠ 0) (s : Side) :
    ((g p).on s).toNat + claims (T.child s p) + withdrawals (T.child s p) =
      (g (T.child s p)).managed.toNat := by
  have count := flow.edge _ (T.child_mem s member inner) (T.child_ne_root s member inner)
  rwa [T.recorded_child s member inner] at count

/-- The cell of a leaf is replaced: only the edge from its parent is counted anew. -/
theorem replace_leaf (flow : T.Flow g claims withdrawals) {leaf : ν} {c : Cell}
    (low : T.layer leaf = 0) (flags : c.left = false ∧ c.right = false)
    (here : leaf ≠ T.root →
      (T.recorded g leaf).toNat + claims' leaf + withdrawals' leaf = c.managed.toNat)
    (others : ∀ n, n ≠ T.root → n ≠ leaf →
      claims' n = claims n ∧ withdrawals' n = withdrawals n)
    (above : ∀ n, T.Mem n → withdrawals' n ≠ 0 →
      ∃ a, T.Above a n ∧ a ≠ n ∧ (update g leaf c a).managed = true) :
    T.Flow (update g leaf c) claims' withdrawals' := by
  refine ⟨fun n node => ?_, fun n node flat => ?_, fun n node inner => ?_,
    fun n node notRoot => ?_, above⟩
  · by_cases same : n = leaf
    · rw [same, Function.update_self]
      exact fun _ => flags.2
    · rw [Function.update_of_ne same]
      exact flow.disjoint n node
  · by_cases same : n = leaf
    · rw [same, Function.update_self]
      exact flags
    · rw [Function.update_of_ne same]
      exact flow.leaf n node flat
  · have away : n ≠ leaf := fun same => inner (same ▸ low)
    rw [Function.update_of_ne away]
    exact flow.virtual n node inner
  · have up : T.parent n ≠ leaf := fun same => T.layer_parent_ne_zero node notRoot (same ▸ low)
    rw [T.recorded_update, if_neg up]
    by_cases same : n = leaf
    · rw [same, Function.update_self]
      exact here (same ▸ notRoot)
    · obtain ⟨sameClaims, sameWithdrawals⟩ := others n notRoot same
      rw [Function.update_of_ne same, sameClaims, sameWithdrawals]
      exact flow.edge n node notRoot

/-- The cell of an inner node is replaced: only the edges from its parent and to its children are
counted anew. -/
theorem replace_inner (flow : T.Flow g claims withdrawals) {p : ν} {c : Cell} (member : T.Mem p)
    (inner : T.layer p ≠ 0) (disjoint : c.left = true → c.right = false) (virtual : c.held = false)
    (here : p ≠ T.root →
      (T.recorded g p).toNat + claims' p + withdrawals' p = c.managed.toNat)
    (below : ∀ t, (c.on t).toNat + claims' (T.child t p) + withdrawals' (T.child t p) =
      (g (T.child t p)).managed.toNat)
    (others : ∀ n, n ≠ T.root → n ≠ p → (∀ t, n ≠ T.child t p) →
      claims' n = claims n ∧ withdrawals' n = withdrawals n)
    (above : ∀ n, T.Mem n → withdrawals' n ≠ 0 →
      ∃ a, T.Above a n ∧ a ≠ n ∧ (update g p c a).managed = true) :
    T.Flow (update g p c) claims' withdrawals' := by
  refine ⟨fun n node => ?_, fun n node flat => ?_, fun n node high => ?_,
    fun n node notRoot => ?_, above⟩
  · by_cases same : n = p
    · rw [same, Function.update_self]
      exact disjoint
    · rw [Function.update_of_ne same]
      exact flow.disjoint n node
  · have away : n ≠ p := fun same => inner (same ▸ flat)
    rw [Function.update_of_ne away]
    exact flow.leaf n node flat
  · by_cases same : n = p
    · rw [same, Function.update_self]
      exact virtual
    · rw [Function.update_of_ne same]
      exact flow.virtual n node high
  · rw [T.recorded_update]
    by_cases up : T.parent n = p
    · have place := T.eq_child_of_parent node notRoot up
      have away : n ≠ p := fun same => T.parent_ne_self node notRoot (up.trans same.symm)
      have count := below (T.side n)
      rw [if_pos up, Function.update_of_ne away]
      rwa [← place] at count
    · rw [if_neg up]
      by_cases same : n = p
      · rw [same, Function.update_self]
        exact here (same ▸ notRoot)
      · obtain ⟨sameClaims, sameWithdrawals⟩ := others n notRoot same fun t child =>
          up (child ▸ T.parent_child t member inner)
        rw [Function.update_of_ne same, sameClaims, sameWithdrawals]
        exact flow.edge n node notRoot

/-- What is being withdrawn is managed further up, also where a new cell still manages the token. -/
theorem above_update (flow : T.Flow g claims withdrawals) {m n : ν} {c : Cell}
    (still : c.managed = true) (node : T.Mem n) (pending : withdrawals n ≠ 0) :
    ∃ a, T.Above a n ∧ a ≠ n ∧ (update g m c a).managed = true := by
  obtain ⟨a, above, different, managed⟩ := flow.above n node pending
  exact ⟨a, above, different, managed_update still managed⟩

/-! ## Sending a claim -/

/-- A leaf takes the token and sends a claim to its parent. -/
theorem take (flow : T.Flow g claims withdrawals) {leaf : ν} (member : T.Mem leaf)
    (low : T.layer leaf = 0) (absent : (g leaf).held = false)
    (sent : ∀ n, n ≠ T.root → claims' n = claims n + if n = leaf then 1 else 0) :
    T.Flow (update g leaf { g leaf with held := true }) claims' withdrawals := by
  have flags := flow.leaf leaf member low
  have unmanaged : (g leaf).managed = false := by
    rw [Cell.managed, absent, flags.1, flags.2]
    rfl
  have still : ({ g leaf with held := true } : Cell).managed = true := by
    simp [Cell.managed]
  apply flow.replace_leaf (c := { g leaf with held := true }) low flags
  · intro notRoot
    have count := flow.edge leaf member notRoot
    rw [unmanaged] at count
    rw [sent leaf notRoot, if_pos rfl, still]
    simp only [Bool.toNat_false, Bool.toNat_true] at count ⊢
    omega
  · intro n notRoot away
    rw [sent n notRoot, if_neg away]
    exact ⟨rfl, rfl⟩
  · exact fun n node pending => flow.above_update still node pending

/-! ## Delivering a claim -/

/-- A claim reaches a parent that has the token on record on the other side: the record is turned
and a withdrawal is sent to the other child. -/
theorem claim_taken (flow : T.Flow g claims withdrawals) {p : ν} {s : Side} (member : T.Mem p)
    (inner : T.layer p ≠ 0) (sent : claims (T.child s p) ≠ 0) (taken : (g p).on s.other = true)
    (left : ∀ n, n ≠ T.root → claims n = claims' n + if n = T.child s p then 1 else 0)
    (sends : ∀ n, withdrawals' n = withdrawals n + if n = T.child s.other p then 1 else 0) :
    T.Flow (update g p (((g p).setOn s true).setOn s.other false)) claims' withdrawals' := by
  have unrecorded : (g p).on s = false := by
    rw [← T.recorded_child s member inner]
    exact (flow.of_claim (T.child_mem s member inner) (T.child_ne_root s member inner) sent).1
  have still : (((g p).setOn s true).setOn s.other false).managed = true :=
    Cell.managed_of_on (s := s) (by simp)
  have turned : T.child s p ≠ T.child s.other p := fun same =>
    s.other_ne (T.child_injective member inner same.symm)
  have apart (t : Side) : p ≠ T.child t p := (T.child_ne_self t member inner).symm
  apply flow.replace_inner member inner
  · cases s <;> simp [Cell.setOn]
  · rw [Cell.held_setOn, Cell.held_setOn]
    exact flow.virtual p member inner
  · intro notRoot
    have count := flow.edge p member notRoot
    have lost := left p notRoot
    rw [Cell.managed_of_on taken] at count
    rw [if_neg (apart s)] at lost
    rw [sends p, if_neg (apart s.other), still]
    omega
  · intro t
    have count := flow.edge_child member inner t
    have lost := left _ (T.child_ne_root t member inner)
    rw [sends (T.child t p)]
    by_cases same : t = s
    · subst same
      rw [unrecorded] at count
      rw [if_pos rfl] at lost
      rw [if_neg turned, Cell.on_other_setOn, Cell.on_setOn_same]
      simp only [Bool.toNat_false, Bool.toNat_true] at count ⊢
      omega
    · obtain rfl := Side.eq_other_of_ne same
      rw [taken] at count
      rw [if_neg turned.symm] at lost
      rw [if_pos rfl, Cell.on_setOn_same]
      simp only [Bool.toNat_false, Bool.toNat_true] at count ⊢
      omega
  · intro n notRoot _ notChild
    have lost := left n notRoot
    rw [if_neg (notChild s), Nat.add_zero] at lost
    rw [sends n, if_neg (notChild s.other)]
    exact ⟨lost.symm, rfl⟩
  · intro n node pending
    by_cases same : n = T.child s.other p
    · -- the node that sends the withdrawal manages the token
      refine ⟨p, same ▸ Above.child s.other member inner, same ▸ apart s.other, ?_⟩
      rw [Function.update_self]
      exact still
    · rw [sends n, if_neg same] at pending
      exact flow.above_update still node pending

/-- A claim reaches a parent without a record on the other side: the parent records the token and
passes the claim on, unless it is the root. -/
theorem claim_free (flow : T.Flow g claims withdrawals) {p : ν} {s : Side} (member : T.Mem p)
    (inner : T.layer p ≠ 0) (sent : claims (T.child s p) ≠ 0) (free : (g p).on s.other = false)
    (passes : ∀ n, n ≠ T.root →
      claims' n + (if n = T.child s p then 1 else 0) = claims n + if n = p then 1 else 0) :
    T.Flow (update g p { (g p).setOn s true with held := false }) claims' withdrawals := by
  have unrecorded : (g p).on s = false := by
    rw [← T.recorded_child s member inner]
    exact (flow.of_claim (T.child_mem s member inner) (T.child_ne_root s member inner) sent).1
  have unmanaged : (g p).managed = false := by
    rw [Cell.managed_eq _ s, flow.virtual p member inner, unrecorded, free]
    rfl
  have still : ({ (g p).setOn s true with held := false } : Cell).managed = true :=
    Cell.managed_of_on (s := s) (by simp)
  have apart (t : Side) : T.child t p ≠ p := T.child_ne_self t member inner
  apply flow.replace_inner member inner
  · cases s <;> simp_all [Cell.setOn, Cell.on]
  · rfl
  · intro notRoot
    have count := flow.edge p member notRoot
    have passed := passes p notRoot
    rw [unmanaged] at count
    rw [if_neg (apart s).symm, if_pos rfl] at passed
    rw [still]
    simp only [Bool.toNat_false, Bool.toNat_true] at count ⊢
    omega
  · intro t
    have count := flow.edge_child member inner t
    have passed := passes _ (T.child_ne_root t member inner)
    rw [if_neg (apart t)] at passed
    rw [Cell.on_held]
    by_cases same : t = s
    · subst same
      rw [unrecorded] at count
      rw [if_pos rfl] at passed
      rw [Cell.on_setOn_same]
      simp only [Bool.toNat_false, Bool.toNat_true] at count ⊢
      omega
    · have other : T.child t p ≠ T.child s p := fun h => same (T.child_injective member inner h)
      obtain rfl := Side.eq_other_of_ne same
      rw [if_neg other] at passed
      rw [Cell.on_setOn_other]
      omega
  · intro n notRoot away notChild
    have passed := passes n notRoot
    rw [if_neg (notChild s), if_neg away] at passed
    exact ⟨passed, rfl⟩
  · exact fun n node pending => flow.above_update still node pending

/-! ## Delivering a withdrawal -/

/-- A withdrawal reaches a leaf. -/
theorem withdraw_leaf (flow : T.Flow g claims withdrawals) {leaf : ν} (member : T.Mem leaf)
    (low : T.layer leaf = 0) (notRoot : leaf ≠ T.root) (sent : withdrawals leaf ≠ 0)
    (lost : ∀ n, withdrawals n = withdrawals' n + if n = leaf then 1 else 0) :
    T.Flow (update g leaf { g leaf with held := false }) claims withdrawals' := by
  have flags := flow.leaf leaf member low
  obtain ⟨unrecorded, noClaim, one, -⟩ := flow.of_withdrawal member notRoot sent
  have unmanaged : ({ g leaf with held := false } : Cell).managed = false := by
    rw [Cell.managed, flags.1, flags.2]
    rfl
  apply flow.replace_leaf (c := { g leaf with held := false }) low flags
  · intro _
    have less := lost leaf
    rw [if_pos rfl] at less
    rw [unmanaged, unrecorded]
    simp only [Bool.toNat_false]
    omega
  · intro n _ away
    have less := lost n
    rw [if_neg away] at less
    exact ⟨rfl, less.symm⟩
  · intro n node pending
    have before : withdrawals n ≠ 0 := by
      have less := lost n
      omega
    obtain ⟨a, above, different, managed⟩ := flow.above n node before
    -- nothing lies below a leaf
    have away : a ≠ leaf := by
      intro same
      apply different
      have bound := above.layer_le node
      exact above.eq_of_layer (.refl _) node (by rw [same] at bound ⊢; omega)
    refine ⟨a, above, different, ?_⟩
    rwa [Function.update_of_ne away]

/-- A withdrawal reaches an inner node: the record is removed and the withdrawal passed on. -/
theorem withdraw_inner (flow : T.Flow g claims withdrawals) {c : ν} {s : Side} (member : T.Mem c)
    (inner : T.layer c ≠ 0) (notRoot : c ≠ T.root) (sent : withdrawals c ≠ 0)
    (recorded : (g c).on s = true)
    (passes : ∀ n, withdrawals' n + (if n = c then 1 else 0) =
      withdrawals n + if n = T.child s c then 1 else 0) :
    T.Flow (update g c ({ g c with held := false }.setOn s false)) claims withdrawals' := by
  obtain ⟨unrecorded, noClaim, one, -⟩ := flow.of_withdrawal member notRoot sent
  have opposite := flow.on_other member recorded
  have unmanaged : ({ g c with held := false }.setOn s false : Cell).managed = false := by
    rw [Cell.managed_eq _ s]
    simp [opposite]
  have apart (t : Side) : T.child t c ≠ c := T.child_ne_self t member inner
  apply flow.replace_inner member inner
  · cases s <;> simp_all [Cell.setOn, Cell.on]
  · rw [Cell.held_setOn]
  · intro _
    have passed := passes c
    rw [if_pos rfl, if_neg (apart s).symm] at passed
    rw [unmanaged, unrecorded]
    simp only [Bool.toNat_false]
    omega
  · intro t
    have count := flow.edge_child member inner t
    have passed := passes (T.child t c)
    rw [if_neg (apart t)] at passed
    by_cases same : t = s
    · subst same
      rw [recorded] at count
      rw [if_pos rfl] at passed
      rw [Cell.on_setOn_same]
      simp only [Bool.toNat_false, Bool.toNat_true] at count ⊢
      omega
    · have other : T.child t c ≠ T.child s c := fun h => same (T.child_injective member inner h)
      obtain rfl := Side.eq_other_of_ne same
      rw [if_neg other] at passed
      rw [Cell.on_setOn_other, Cell.on_held]
      omega
  · intro n _ away notChild
    have passed := passes n
    rw [if_neg away, if_neg (notChild s)] at passed
    exact ⟨rfl, passed⟩
  · intro n node pending
    -- further up than the node itself the token is still managed
    obtain ⟨top, higher, strict, alive⟩ := flow.above c member sent
    have beyond (below : T.Above c n) : ∃ a, T.Above a n ∧ a ≠ n ∧
        (update g c ({ g c with held := false }.setOn s false) a).managed = true := by
      refine ⟨top, higher.trans below, fun same => strict ?_, ?_⟩
      · subst same
        exact higher.eq_of_layer (.refl _) member
          (Nat.le_antisymm (below.layer_le node) (higher.layer_le member))
      · rwa [Function.update_of_ne strict]
    by_cases same : n = T.child s c
    · exact beyond (same ▸ Above.child s member inner)
    · have before : withdrawals n ≠ 0 := by
        have passed := passes n
        rw [if_neg same] at passed
        omega
      obtain ⟨a, above, different, managed⟩ := flow.above n node before
      by_cases here : a = c
      · exact beyond (here ▸ above)
      · refine ⟨a, above, different, ?_⟩
        rwa [Function.update_of_ne here]

/-- A node that a withdrawal reaches is not the only one that manages the token. -/
theorem alive_of_withdrawal (flow : T.Flow g claims withdrawals) {n : ν} (member : T.Mem n)
    (sent : withdrawals n ≠ 0) (c : Cell) : T.Alive (update g n c) := by
  obtain ⟨a, above, different, managed⟩ := flow.above n member sent
  refine ⟨a, above.mem member, ?_⟩
  rwa [Function.update_of_ne different]

end Flow

/-! ## Owners -/

/-- In a routed grid without parked tokens the records lead from every node that manages the
token to a leaf that holds it. -/
theorem Law.exists_trail (law : T.Routed g)
    (free : ∀ n, T.Mem n → T.layer n ≠ 0 → (g n).held = false) {l : Nat} {n : ν}
    (member : T.Mem n) (height : T.layer n = l) (managed : (g n).managed = true) :
    ∃ leaf, T.trail g l n = some leaf ∧ T.Mem leaf ∧ T.layer leaf = 0 ∧ (g leaf).held = true := by
  induction l generalizing n with
  | zero =>
    have flags := law.leaf n member height
    rw [Cell.managed, flags.1, flags.2, Bool.or_false, Bool.or_false] at managed
    exact ⟨n, rfl, member, height, managed⟩
  | succ l ih =>
    have inner : T.layer n ≠ 0 := by omega
    have turn (s : Side) (record : (g n).on s = true) :
        ∃ leaf, T.trail g l (T.child s n) = some leaf ∧ T.Mem leaf ∧ T.layer leaf = 0 ∧
          (g leaf).held = true := by
      have node := T.child_mem s member inner
      have below := T.layer_child s member inner
      apply ih node (by omega)
      rw [← law.edge _ node (T.child_ne_root s member inner), T.recorded_child s member inner]
      exact record
    rw [Cell.managed, free n member inner, Bool.false_or, Bool.or_eq_true] at managed
    rw [trail]
    by_cases left : (g n).left = true
    · rw [if_pos left]
      exact turn .left left
    · have right : (g n).right = true := managed.resolve_left left
      rw [if_neg left, if_pos right]
      exact turn .right right

/-- In a routed grid in which some node manages the token, the root does. -/
theorem Law.managed_root (law : T.Routed g) (alive : T.Alive g) : (g T.root).managed = true := by
  obtain ⟨n, member, managed⟩ := alive
  have climb {a : ν} (above : T.Above a n) : (g a).managed = true := by
    induction above with
    | refl => exact managed
    | @up a n above notRoot ih =>
      have recorded := law.edge a (above.mem member) notRoot
      rw [ih member managed, LayeredTree.recorded] at recorded
      exact Cell.managed_of_on recorded
  exact climb (.root member)

end TokenTree.LayeredTree
