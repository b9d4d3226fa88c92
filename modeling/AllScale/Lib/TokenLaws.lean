import AllScale.Lib.Token

/-!
# The token operations keep the law

One proof serves both readings of `Law`: the relation between record and cell is a variable,
of which only reflexivity and one implication are used. The case that separates the readings is
a withdrawal that ends at an inner node without a record; there the strict reading needs that
no such node holds the token, which is the hypothesis `stuck`.
-/

namespace TokenTree.LayeredTree

open Function (update)

variable {ν : Type} [DecidableEq ν] {T : LayeredTree ν} {R : Bool → Bool → Prop}

/-- A new cell at a virtual node moves a hole from there or from a child. Nothing else has to be
right but the record about the node, and those about the children that are not the new hole. -/
theorem LawBut.move {g : Grid ν} {n hole hole' : ν} {c : Cell} (law : T.LawBut R hole g)
    (member : T.Mem n) (inner : T.layer n ≠ 0) (near : hole = n ∨ T.parent hole = n)
    (disjoint : c.left = true → c.right = false)
    (own : n ≠ T.root → n ≠ hole' → R (T.recorded g n) c.managed)
    (below : ∀ t, T.child t n ≠ hole' → R (c.on t) (g (T.child t n)).managed) :
    T.LawBut R hole' (update g n c) := by
  refine ⟨fun m node => ?_, fun m node leaf => ?_, fun m node notRoot away => ?_⟩
  · by_cases h : m = n
    · subst h
      rw [Function.update_self]
      exact disjoint
    · rw [Function.update_of_ne h]
      exact law.disjoint m node
  · have h : m ≠ n := fun h => inner (h ▸ leaf)
    rw [Function.update_of_ne h]
    exact law.leaf m node leaf
  · rw [T.recorded_update]
    by_cases here : m = n
    · subst here
      rw [if_neg (T.parent_ne_self node notRoot), Function.update_self]
      exact own notRoot away
    · rw [Function.update_of_ne here]
      by_cases up : T.parent m = n
      · have place := T.eq_child_of_parent node notRoot up
        have right := below (T.side m)
        rw [← place] at right
        rw [if_pos up]
        exact right away
      · rw [if_neg up]
        refine law.edge m node notRoot fun same => ?_
        rcases near with near | near
        · exact here (same.trans near)
        · exact up (same ▸ near)

omit [DecidableEq ν] in
/-- A record about a child is right, where the child is not the hole. -/
theorem LawBut.child {g : Grid ν} {n hole : ν} (law : T.LawBut R hole g) (s : Side)
    (member : T.Mem n) (inner : T.layer n ≠ 0) (away : T.child s n ≠ hole) :
    R ((g n).on s) (g (T.child s n)).managed := by
  rw [← T.recorded_child s member inner]
  exact law.edge _ (T.child_mem s member inner) (T.child_ne_root s member inner) away

/-! ## Withdrawing -/

/-- Clearing the records and the hold of a node that is not recorded moves the hole to the
child on the cleared side. -/
theorem LawBut.clear {g : Grid ν} {n : ν} (s : Side) (reflexive : ∀ flag, R flag flag)
    (member : T.Mem n) (inner : T.layer n ≠ 0) (law : T.LawBut R n g)
    (unrecorded : n ≠ T.root → T.recorded g n = false) (set : (g n).on s = true) :
    T.LawBut R (T.child s n) (update g n ({ (g n) with held := false }.setOn s false)) := by
  have opposite := law.on_other member set
  refine law.move member inner (.inl rfl) ?_ (fun notRoot _ => ?_) fun t away => ?_
  · cases s <;> simp_all [Cell.setOn, Cell.on]
  · have unmanaged : ({ (g n) with held := false }.setOn s false).managed = false := by
      rw [Cell.managed_eq _ s]
      simp [opposite]
    rw [unmanaged, unrecorded notRoot]
    exact reflexive false
  · -- the child on the other side, about which nothing has changed
    have turned : t = s.other := Side.eq_other_of_ne fun h => away (h ▸ rfl)
    rw [turned, Cell.on_setOn_other, Cell.on_held]
    exact law.child _ member inner (T.child_ne_self _ member inner)

/-- Withdrawing below an unrecorded node gives the law, when every node at which the withdrawal
can get stuck may hold the token unrecorded. -/
theorem withdraw_law {Q : ν → Prop} (reflexive : ∀ flag, R flag flag)
    (closed : ∀ m s, T.Mem m → T.layer m ≠ 0 → Q m → Q (T.child s m)) :
    ∀ (l : Nat) (g : Grid ν) (n : ν), T.Mem n → T.layer n = l → Q n → T.LawBut R n g →
      (n ≠ T.root → T.recorded g n = false) →
      (∀ m, T.Mem m → T.layer m ≠ 0 → Q m → (g m).parked = true → R false true) →
      T.Law R (T.withdraw l g n) := by
  intro l
  induction l with
  | zero =>
    intro g n member layer _ law unrecorded _
    have flags := law.leaf n member layer
    refine ⟨fun m node => ?_, fun m node leaf => ?_, fun m node notRoot => ?_⟩
    · by_cases h : m = n
      · subst h
        simp [withdraw, flags]
      · simpa [withdraw, Function.update_of_ne h] using law.disjoint m node
    · by_cases h : m = n
      · subst h
        simp [withdraw, flags]
      · simpa [withdraw, Function.update_of_ne h] using law.leaf m node leaf
    · have up : T.parent m ≠ n := fun h =>
        T.layer_parent_ne_zero node notRoot (h ▸ layer)
      rw [withdraw, T.recorded_update, if_neg up]
      by_cases h : m = n
      · subst h
        simpa [Cell.managed, flags, unrecorded notRoot] using reflexive false
      · rw [Function.update_of_ne h]
        exact law.edge m node notRoot h
  | succ l ih =>
    intro g n member layer inside law unrecorded stuck
    have inner : T.layer n ≠ 0 := by omega
    have descend (s : Side) (set : (g n).on s = true) : T.Law R
        (T.withdraw l (update g n ({ (g n) with held := false }.setOn s false))
          (T.child s n)) := by
      have below := T.layer_child s member inner
      refine ih _ _ (T.child_mem s member inner) (by omega) (closed n s member inner inside)
        (law.clear s reflexive member inner unrecorded set) (fun _ => ?_) ?_
      · rw [T.recorded_child s member inner, Function.update_self, Cell.on_setOn_same]
      · intro m node high wanted parked
        refine stuck m node high wanted ?_
        by_cases h : m = n
        · subst h
          simp [Cell.parked] at parked
        · rwa [Function.update_of_ne h] at parked
    rw [withdraw]
    by_cases left : (g n).left = true
    · rw [if_pos left]
      exact descend .left left
    · rw [if_neg left]
      by_cases right : (g n).right = true
      · rw [if_pos right]
        exact descend .right right
      · rw [if_neg right]
        -- neither side is recorded: the withdrawal ends here
        refine law.fill fun notRoot => ?_
        rw [unrecorded notRoot]
        cases held : (g n).held with
        | false => simpa [Cell.managed, held, left, right] using reflexive false
        | true =>
          have parked : (g n).parked = true := by simp [Cell.parked, held, left, right]
          simpa [Cell.managed, held] using stuck n member inner inside parked

/-- A withdrawal does not touch nodes outside the subtree it starts in. -/
theorem withdraw_frame {m : ν} :
    ∀ (l : Nat) (g : Grid ν) (n : ν), T.Mem n → T.layer n = l → ¬ T.Above n m →
      T.withdraw l g n m = g m := by
  intro l
  induction l with
  | zero =>
    intro g n _ _ outside
    have h : m ≠ n := fun h => outside (h ▸ .refl _)
    simp [withdraw, Function.update_of_ne h]
  | succ l ih =>
    intro g n member layer outside
    have inner : T.layer n ≠ 0 := by omega
    have h : m ≠ n := fun h => outside (h ▸ .refl _)
    have descend (s : Side) (c : Cell) :
        T.withdraw l (update g n c) (T.child s n) m = g m := by
      have below := T.layer_child s member inner
      rw [ih _ _ (T.child_mem s member inner) (by omega)
        (fun above => outside (above.of_child member inner)), Function.update_of_ne h]
    rw [withdraw]
    split
    · exact descend .left _
    · split
      · exact descend .right _
      · rfl

/-- A withdrawal gives no node a property that needs the node to hold the token. -/
theorem of_withdraw {P : Cell → Prop} (needs : ∀ c, P c → c.held = true) {m : ν} :
    ∀ (l : Nat) (g : Grid ν) (n : ν), P (T.withdraw l g n m) → P (g m) := by
  intro l
  induction l with
  | zero =>
    intro g n after
    by_cases h : m = n
    · subst h
      simpa [withdraw] using needs _ after
    · simpa [withdraw, Function.update_of_ne h] using after
  | succ l ih =>
    intro g n after
    have descend (c : Cell) (s : Side) (cleared : c.held = false)
        (after : P (T.withdraw l (update g n c) (T.child s n) m)) : P (g m) := by
      have before := ih _ _ after
      by_cases h : m = n
      · subst h
        rw [Function.update_self] at before
        simp [needs c before] at cleared
      · rwa [Function.update_of_ne h] at before
    rw [withdraw] at after
    split at after
    · exact descend _ .left rfl after
    · split at after
      · exact descend _ .right rfl after
      · exact after

/-! ## Claiming -/

/-- Recording a claim at a node without a record on the other side moves the hole from the
child to the node. -/
theorem LawBut.rise {g : Grid ν} {n : ν} {s : Side} (reflexive : ∀ flag, R flag flag)
    (member : T.Mem n) (inner : T.layer n ≠ 0) (law : T.LawBut R (T.child s n) g)
    (managed : (g (T.child s n)).managed = true) (free : (g n).on s.other = false) :
    T.LawBut R n (update g n { (g n).setOn s true with held := false }) := by
  refine law.move member inner (.inr (T.parent_child s member inner)) ?_
    (fun _ away => absurd rfl away) fun t _ => ?_
  · cases s <;> simp_all [Cell.setOn, Cell.on]
  · rw [Cell.on_held]
    by_cases same : t = s
    · rw [same, Cell.on_setOn_same, managed]
      exact reflexive true
    · rw [Side.eq_other_of_ne same, Cell.on_setOn_other]
      exact law.child _ member inner fun h => s.other_ne (T.child_injective member inner h)

/-- Recording a claim at a node with a record on the other side moves the hole to the child on
that other side. -/
theorem LawBut.turn {g : Grid ν} {n : ν} {s : Side} (reflexive : ∀ flag, R flag flag)
    (member : T.Mem n) (inner : T.layer n ≠ 0) (law : T.LawBut R (T.child s n) g)
    (managed : (g (T.child s n)).managed = true) (taken : (g n).on s.other = true) :
    T.LawBut R (T.child s.other n)
      (update g n (((g n).setOn s true).setOn s.other false)) := by
  refine law.move member inner (.inr (T.parent_child s member inner)) ?_ (fun notRoot _ => ?_)
    fun t away => ?_
  · cases s <;> simp_all [Cell.setOn, Cell.on]
  · have before := law.edge n member notRoot (T.child_ne_self s member inner).symm
    have still : (((g n).setOn s true).setOn s.other false).managed = true :=
      Cell.managed_of_on (s := s) (by simp)
    rw [still]
    rwa [Cell.managed_of_on taken] at before
  · have other : t ≠ s.other := fun h => away (h ▸ rfl)
    have same : t = s := (Side.eq_other_of_ne other).trans s.other_other
    rw [same, Cell.on_other_setOn, Cell.on_setOn_same, managed]
    exact reflexive true

/-- A claim that meets a record on the other side ends with a withdrawal there. -/
theorem claim_of_taken {h : Nat} {g : Grid ν} {n : ν} {s : Side}
    (taken : (g n).on s.other = true) :
    T.claim h g n s = T.withdraw (T.layer (T.child s.other n))
      (update g n (((g n).setOn s true).setOn s.other false)) (T.child s.other n) := by
  cases h <;> rw [claim, if_pos taken]

/-- A claim that meets no record at the root ends there. -/
theorem claim_of_root {h : Nat} {g : Grid ν} {s : Side}
    (free : (g T.root).on s.other = false) :
    T.claim h g T.root s =
      update g T.root { (g T.root).setOn s true with held := false } := by
  cases h <;> simp [claim, free]

/-- A claim that meets no record below the root goes on to the parent. -/
theorem claim_of_free {h : Nat} {g : Grid ν} {n : ν} {s : Side}
    (free : (g n).on s.other = false) (notRoot : n ≠ T.root) :
    T.claim (h + 1) g n s = T.claim h (update g n { (g n).setOn s true with held := false })
      (T.parent n) (T.side n) := by
  rw [claim]
  simp [free, notRoot]

/-- A claim that starts on the way from a leaf to the root gives the law, when every node off
that way may hold the token unrecorded. -/
theorem claim_law {leaf : ν} (reflexive : ∀ flag, R flag flag) (node : T.Mem leaf) :
    ∀ (h : Nat) (g : Grid ν) (n : ν) (s : Side), T.Mem n → T.layer n ≠ 0 →
      T.layer T.root - T.layer n = h → T.Above (T.child s n) leaf →
      T.LawBut R (T.child s n) g → (g (T.child s n)).managed = true →
      (∀ m, T.Mem m → T.layer m ≠ 0 → ¬ T.Above m leaf → (g m).parked = true → R false true) →
      T.Law R (T.claim h g n s) := by
  intro h g n s member inner height above law managed stuck
  have turned {h : Nat} {g : Grid ν} {n : ν} {s : Side} (law : T.LawBut R (T.child s n) g)
      (managed : (g (T.child s n)).managed = true) (taken : (g n).on s.other = true)
      (above : T.Above (T.child s n) leaf) (member : T.Mem n) (inner : T.layer n ≠ 0)
      (stuck : ∀ m, T.Mem m → T.layer m ≠ 0 → ¬ T.Above m leaf → (g m).parked = true →
        R false true) : T.Law R (T.claim h g n s) := by
    rw [claim_of_taken taken]
    refine withdraw_law (Q := fun m => ¬ T.Above m leaf) reflexive
      (fun m t place high outside below => outside (below.of_child place high)) _ _ _
      (T.child_mem s.other member inner) rfl (above.not_sibling node member inner)
      (law.turn reflexive member inner managed taken) (fun _ => ?_) ?_
    · rw [T.recorded_child _ member inner, Function.update_self, Cell.on_setOn_same]
    · intro m place high outside parked
      have h : m ≠ n := fun h => outside (h ▸ above.of_child member inner)
      rw [Function.update_of_ne h] at parked
      exact stuck m place high outside parked
  induction h generalizing g n s with
  | zero =>
    have isRoot := T.eq_root_of_le member (by omega)
    cases free : (g n).on s.other with
    | true => exact turned law managed free above member inner stuck
    | false =>
      have risen := law.rise reflexive member inner managed free
      subst isRoot
      rw [claim_of_root free]
      exact risen.fill fun notRoot => absurd rfl notRoot
  | succ h ih =>
    have notRoot : n ≠ T.root := by
      intro isRoot
      rw [isRoot] at height
      omega
    cases free : (g n).on s.other with
    | true => exact turned law managed free above member inner stuck
    | false =>
      have risen := law.rise reflexive member inner managed free
      rw [claim_of_free free notRoot]
      have raised := T.layer_parent member notRoot
      refine ih _ _ _ (T.parent_mem member notRoot) (T.layer_parent_ne_zero member notRoot)
        (by omega) ?_ ?_ ?_ ?_
      · rw [T.child_side member notRoot]
        exact above.of_child member inner
      · rwa [T.child_side member notRoot]
      · rw [T.child_side member notRoot, Function.update_self]
        exact Cell.managed_of_on (s := s) (by simp)
      · intro m place high outside parked
        have h : m ≠ n := fun h => outside (h ▸ above.of_child member inner)
        rw [Function.update_of_ne h] at parked
        exact stuck m place high outside parked

/-- A claim gives no node a property that needs the node to hold the token and that survives
dropping a new record. -/
theorem of_claim {P : Cell → Prop} (needs : ∀ c, P c → c.held = true)
    (drops : ∀ c s, P ((c.setOn s true).setOn s.other false) → P c) {m : ν} :
    ∀ (h : Nat) (g : Grid ν) (n : ν) (s : Side), P (T.claim h g n s m) → P (g m) := by
  intro h g n s after
  have lift (c : Cell) (g : Grid ν) (n : ν) (cell : P c → P (g n))
      (after : P (update g n c m)) : P (g m) := by
    by_cases h : m = n
    · subst h
      exact cell (by simpa using after)
    · rwa [Function.update_of_ne h] at after
  have raised (g : Grid ν) (n : ν) (s : Side)
      (after : P (update g n { (g n).setOn s true with held := false } m)) : P (g m) :=
    lift _ g n (fun bad => by simpa using needs _ bad) after
  have taken {h : Nat} {g : Grid ν} {n : ν} {s : Side} (other : (g n).on s.other = true)
      (after : P (T.claim h g n s m)) : P (g m) := by
    rw [claim_of_taken other] at after
    exact lift _ g n (drops _ _) (of_withdraw needs _ _ _ after)
  induction h generalizing g n s with
  | zero =>
    cases free : (g n).on s.other with
    | true => exact taken free after
    | false =>
      simp only [claim, free, Bool.false_eq_true, ↓reduceIte, ite_self] at after
      exact raised g n s after
  | succ h ih =>
    cases free : (g n).on s.other with
    | true => exact taken free after
    | false =>
      by_cases isRoot : n = T.root
      · subst isRoot
        rw [claim_of_root free] at after
        exact raised g T.root s after
      · rw [claim_of_free free isRoot] at after
        exact raised g n s (ih _ _ _ after)

/-- A claim does not touch the subtree it comes from. -/
theorem claim_frame {m : ν} (node : T.Mem m) :
    ∀ (h : Nat) (g : Grid ν) (n : ν) (s : Side), T.Mem n → T.layer n ≠ 0 →
      T.Above (T.child s n) m → T.claim h g n s m = g m := by
  intro h g n s member inner above
  have away {n : ν} {s : Side} (member : T.Mem n) (inner : T.layer n ≠ 0)
      (above : T.Above (T.child s n) m) : m ≠ n := (above.ne_of_child node member inner).symm
  have taken {h : Nat} {g : Grid ν} {n : ν} {s : Side} (member : T.Mem n) (inner : T.layer n ≠ 0)
      (above : T.Above (T.child s n) m) (other : (g n).on s.other = true) :
      T.claim h g n s m = g m := by
    rw [claim_of_taken other, withdraw_frame _ _ _ (T.child_mem s.other member inner) rfl
      (above.not_sibling node member inner), Function.update_of_ne (away member inner above)]
  induction h generalizing g n s with
  | zero =>
    cases free : (g n).on s.other with
    | true => exact taken member inner above free
    | false =>
      simp [claim, free, Function.update_of_ne (away member inner above)]
  | succ h ih =>
    cases free : (g n).on s.other with
    | true => exact taken member inner above free
    | false =>
      by_cases isRoot : n = T.root
      · subst isRoot
        rw [claim_of_root free, Function.update_of_ne (away member inner above)]
      · rw [claim_of_free free isRoot, ih _ _ _ (T.parent_mem member isRoot)
          (T.layer_parent_ne_zero member isRoot), Function.update_of_ne (away member inner above)]
        rw [T.child_side member isRoot]
        exact above.of_child member inner

/-! ## Taking -/

/-- Taking the token at a leaf gives the law, when every inner node off the way from the leaf to
the root may hold the token unrecorded. -/
theorem Law.take {g : Grid ν} {leaf : ν} (reflexive : ∀ flag, R flag flag) (law : T.Law R g)
    (member : T.Mem leaf) (low : T.layer leaf = 0)
    (stuck : ∀ m, T.Mem m → T.layer m ≠ 0 → ¬ T.Above m leaf → (g leaf).held = false →
      (g m).parked = true → R false true) :
    T.Law R (T.take g leaf) := by
  rw [LayeredTree.take]
  cases held : (g leaf).held with
  | true => simpa using law
  | false =>
    simp only [Bool.false_eq_true, ↓reduceIte]
    have opened : T.LawBut R leaf (update g leaf { g leaf with held := true }) := by
      refine ⟨fun m node => ?_, fun m node flat => ?_, fun m node notRoot away => ?_⟩
      · by_cases h : m = leaf
        · subst h
          simpa using law.disjoint m node
        · simpa [Function.update_of_ne h] using law.disjoint m node
      · by_cases h : m = leaf
        · subst h
          simpa using law.leaf m node flat
        · simpa [Function.update_of_ne h] using law.leaf m node flat
      · have up : T.parent m ≠ leaf := fun h =>
          T.layer_parent_ne_zero node notRoot (h ▸ low)
        rw [T.recorded_update, if_neg up, Function.update_of_ne away]
        exact law.edge m node notRoot
    split
    · exact opened.fill fun notRoot => absurd ‹leaf = T.root› notRoot
    · rename_i notRoot
      have place := T.child_side member notRoot
      refine claim_law reflexive member _ _ _ _ (T.parent_mem member notRoot)
        (T.layer_parent_ne_zero member notRoot) rfl ?_ ?_ ?_ ?_
      · rw [place]
        exact .refl _
      · rwa [place]
      · rw [place]
        simp [Cell.managed]
      · intro m node inner outside parked
        have h : m ≠ leaf := fun h => inner (h ▸ low)
        rw [Function.update_of_ne h] at parked
        exact stuck m node inner outside held parked

/-- The leaf that takes the token holds it. -/
theorem held_take {g : Grid ν} {leaf : ν} (member : T.Mem leaf) :
    (T.take g leaf leaf).held = true := by
  rw [take]
  cases held : (g leaf).held with
  | true => simpa using held
  | false =>
    simp only [Bool.false_eq_true, ↓reduceIte]
    split
    · simp
    · rename_i notRoot
      rw [claim_frame member _ _ _ _ (T.parent_mem member notRoot)
        (T.layer_parent_ne_zero member notRoot)]
      · simp
      · rw [T.child_side member notRoot]
        exact .refl _

/-- Taking the token at a leaf gives no other node a property that needs the node to hold it and
that survives dropping a new record. -/
theorem of_take {P : Cell → Prop} (needs : ∀ c, P c → c.held = true)
    (drops : ∀ c s, P ((c.setOn s true).setOn s.other false) → P c) {g : Grid ν} {leaf m : ν}
    (different : m ≠ leaf) (after : P (T.take g leaf m)) : P (g m) := by
  rw [take] at after
  split at after
  · exact after
  · simp only at after
    have lift (after : P (update g leaf { g leaf with held := true } m)) : P (g m) := by
      rwa [Function.update_of_ne different] at after
    split at after
    · exact lift after
    · exact lift (of_claim needs drops _ _ _ _ after)

/-- Taking the token at a leaf parks it at no other node. -/
theorem parked_of_take {g : Grid ν} {leaf m : ν} (different : m ≠ leaf)
    (parked : (T.take g leaf m).parked = true) : (g m).parked = true := by
  refine of_take (P := fun c => c.parked = true) (fun c free => ?_) (fun c s free => ?_)
    different parked
  · simp only [Cell.parked, Bool.and_eq_true] at free
    exact free.1.1
  · rw [Cell.parked_of_on (s := s) (by simp)] at free
    exact Bool.noConfusion free

end TokenTree.LayeredTree
