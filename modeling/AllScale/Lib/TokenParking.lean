import AllScale.Lib.TokenDispatch

/-!
# Where a token is parked

A node that holds the token and has it on record for neither child has parked it. Taking a token
and handing it down keep a grid capped: no node below one that has parked the token manages it, and
no node at all does when the root does not. In a capped grid a token that is handed down arrives at
the end of a path exactly if it is allowed to a node that does not manage it or parked on the path,
and a claim finds its own side on record exactly if it passes a node that has parked the token.
-/

namespace TokenTree.LayeredTree

open Function (update)

variable {ν : Type} {T : LayeredTree ν}

/-- Nothing is managed below a node that has parked the token, or when the root does not manage
it. -/
structure Capped (T : LayeredTree ν) (g : Grid ν) : Prop where
  /-- Where the token is managed, the root manages it. -/
  root : ∀ n, T.Mem n → (g n).managed = true → (g T.root).managed = true
  /-- No node above one that manages the token has parked it. -/
  clear : ∀ n m, T.Mem m → T.Above n m → n ≠ m → (g m).managed = true → (g n).parked = false

/-- A node at which a token can arrive: the token is managed nowhere from there downwards, parked at
no node above, and managed by the root. -/
structure Bare (T : LayeredTree ν) (g : Grid ν) (n : ν) : Prop where
  /-- Neither the node nor one below manages the token. -/
  below : ∀ m, T.Mem m → T.Above n m → (g m).managed = false
  /-- No node above has parked the token. -/
  above : ∀ a, T.Above a n → a ≠ n → (g a).parked = false
  /-- The root manages the token, unless it is the node. -/
  root : n ≠ T.root → (g T.root).managed = true

/-! ## Cells -/

/-- A grant that hands nothing on changes neither what a node manages nor what it has parked. -/
theorem same_of_not_handed (c : Cell) (s : Side) (allowed : Bool)
    (kept : (grant c s allowed).2 = false) :
    (grant c s allowed).1.managed = c.managed ∧ (grant c s allowed).1.parked = c.parked ∧
      (grant c s allowed).1.left = c.left ∧ (grant c s allowed).1.right = c.right := by
  obtain ⟨held, left, right⟩ := c
  revert kept
  cases s <;> cases held <;> cases left <;> cases right <;> cases allowed <;> decide

/-- A grant hands on what a node has parked, or is allowed and does not manage. -/
theorem handed_iff (c : Cell) (s : Side) (allowed : Bool) :
    (grant c s allowed).2 = true ↔ c.parked = true ∨ allowed = true ∧ c.managed = false := by
  obtain ⟨held, left, right⟩ := c
  cases s <;> cases held <;> cases left <;> cases right <;> cases allowed <;> decide

/-- A node that manages the token and keeps it does not park it anew. -/
theorem parked_of_managed {c : Cell} (managed : c.managed = true) :
    ({ c with held := true } : Cell).parked = c.parked := by
  obtain ⟨held, left, right⟩ := c
  revert managed
  cases held <;> cases left <;> cases right <;> decide

/-- A node that does not manage the token has it on record on no side. -/
theorem on_of_unmanaged {c : Cell} (unmanaged : c.managed = false) (s : Side) :
    c.on s = false := by
  cases recorded : c.on s with
  | false => rfl
  | true =>
    rw [Cell.managed_of_on recorded] at unmanaged
    cases unmanaged

/-- A node that has parked the token has it on record on no side. -/
theorem on_of_parked {c : Cell} (parked : c.parked = true) (s : Side) : c.on s = false := by
  cases recorded : c.on s with
  | false => rfl
  | true =>
    rw [Cell.parked_of_on recorded] at parked
    cases parked

namespace Capped

variable {g : Grid ν} {n : ν} {allowed : Bool}

/-- Nothing below a node that has parked the token manages it. -/
theorem unmanaged (capped : T.Capped g) {m : ν} (member : T.Mem m) (above : T.Above n m)
    (different : n ≠ m) (parked : (g n).parked = true) : (g m).managed = false := by
  cases managed : (g m).managed with
  | false => rfl
  | true =>
    rw [capped.clear n m member above different managed] at parked
    cases parked

/-- Where the root does not manage the token, it can arrive there. -/
theorem bare_root (capped : T.Capped g) (unmanaged : (g T.root).managed = false) :
    T.Bare g T.root := by
  refine ⟨fun m member _ => ?_, fun a above different => ?_, fun notRoot => absurd rfl notRoot⟩
  · cases managed : (g m).managed with
    | false => rfl
    | true =>
      rw [capped.root m member managed] at unmanaged
      cases unmanaged
  · obtain ⟨notRoot, -⟩ := above.parent_of_ne different
    exact absurd rfl notRoot

/-- What surrounds a node that hands the token on. -/
theorem around (capped : T.Capped g) (member : T.Mem n)
    (due : allowed = true → (g n).managed = true ∨ T.Bare g n)
    (moves : (g n).parked = true ∨ allowed = true ∧ (g n).managed = false) :
    (∀ m, T.Mem m → T.Above n m → n ≠ m → (g m).managed = false) ∧
      (∀ a, T.Above a n → a ≠ n → (g a).parked = false) ∧
      (n ≠ T.root → (g T.root).managed = true) := by
  rcases moves with parked | ⟨allow, unmanaged⟩
  · have managed := Cell.managed_of_parked parked
    exact ⟨fun m node above different => capped.unmanaged node above different parked,
      fun a above different => capped.clear a n member above different managed,
      fun _ => capped.root n member managed⟩
  · rcases due allow with managed | bare
    · rw [unmanaged] at managed
      cases managed
    · exact ⟨fun m node above _ => bare.below m node above, bare.above, bare.root⟩

variable [DecidableEq ν]

/-- A cell that manages and parks as much as before keeps a grid capped. -/
theorem update_same (capped : T.Capped g) {c : Cell} (managed : c.managed = (g n).managed)
    (parked : c.parked = (g n).parked) : T.Capped (update g n c) := by
  have cells (m : ν) : (update g n c m).managed = (g m).managed ∧
      (update g n c m).parked = (g m).parked := by
    by_cases here : m = n
    · subst here
      rw [Function.update_self]
      exact ⟨managed, parked⟩
    · rw [Function.update_of_ne here]
      exact ⟨rfl, rfl⟩
  refine ⟨fun m member after => ?_, fun a m member above different after => ?_⟩
  · rw [(cells m).1] at after
    rw [(cells T.root).1]
    exact capped.root m member after
  · rw [(cells m).1] at after
    rw [(cells a).2]
    exact capped.clear a m member above different after

/-- A cell that manages the token keeps a grid capped at a node around which nothing is in the way,
when it is parked there only if nothing is managed below. -/
theorem update_managed (capped : T.Capped g) {c : Cell} (managed : c.managed = true)
    (below : ∀ m, T.Mem m → T.Above n m → n ≠ m → (g m).managed = false)
    (above : ∀ a, T.Above a n → a ≠ n → (g a).parked = false)
    (root : n ≠ T.root → (g T.root).managed = true) : T.Capped (update g n c) := by
  refine ⟨fun m member after => ?_, fun a m member higher different after => ?_⟩
  · by_cases isRoot : n = T.root
    · rw [← isRoot, Function.update_self]
      exact managed
    · rw [Function.update_of_ne (Ne.symm isRoot)]
      exact root isRoot
  · by_cases atNode : m = n
    · subst atNode
      rw [Function.update_of_ne different]
      exact above a higher different
    · rw [Function.update_of_ne atNode] at after
      by_cases atAbove : a = n
      · subst atAbove
        rw [below m member higher different] at after
        cases after
      · rw [Function.update_of_ne atAbove]
        exact capped.clear a m member higher different after

/-! ## Handing down -/

/-- A grant keeps a grid capped, and hands the token to a child at which it can arrive. -/
theorem grant (capped : T.Capped g) (s : Side) (member : T.Mem n) (inner : T.layer n ≠ 0)
    (due : allowed = true → (g n).managed = true ∨ T.Bare g n) :
    T.Capped (update g n (grant (g n) s allowed).1) ∧
      ((LayeredTree.grant (g n) s allowed).2 = true →
        T.Bare (update g n (LayeredTree.grant (g n) s allowed).1) (T.child s n)) := by
  cases handed : (LayeredTree.grant (g n) s allowed).2 with
  | false =>
    obtain ⟨managed, parked, -, -⟩ := same_of_not_handed (g n) s allowed handed
    exact ⟨capped.update_same managed parked, fun no => Bool.noConfusion no⟩
  | true =>
    obtain ⟨below, above, root⟩ := capped.around member due ((handed_iff _ s _).mp handed)
    have recorded : (LayeredTree.grant (g n) s allowed).1.on s = true := by
      rw [on_grant, handed, Bool.or_true]
    have managed := Cell.managed_of_on recorded
    refine ⟨capped.update_managed managed below above root, fun _ => ?_⟩
    have under {m : ν} (node : T.Mem m) (lower : T.Above (T.child s n) m) : n ≠ m :=
      lower.ne_of_child node member inner
    refine ⟨fun m node lower => ?_, fun a higher different => ?_, fun _ => ?_⟩
    · have different := under node lower
      rw [Function.update_of_ne different.symm]
      exact below m node (lower.of_child member inner) different
    · have upper := (higher.parent_of_ne different).2
      rw [T.parent_child s member inner] at upper
      by_cases here : a = n
      · subst here
        rw [Function.update_self]
        exact parked_grant _ s allowed
      · rw [Function.update_of_ne here]
        exact above a upper here
    · by_cases isRoot : n = T.root
      · rw [← isRoot, Function.update_self]
        exact managed
      · rw [Function.update_of_ne (Ne.symm isRoot)]
        exact root isRoot

/-- Handing an allowance down keeps a grid capped, and the token can arrive at the end of the
path. -/
theorem passDown (path : List Side) (capped : T.Capped g) (member : T.Mem n)
    (fits : path.length ≤ T.layer n)
    (due : allowed = true → (g n).managed = true ∨ T.Bare g n) :
    T.Capped (T.passDown path g n allowed).1 ∧
      ((T.passDown path g n allowed).2 = true →
        ((T.passDown path g n allowed).1 (T.descend path n)).managed = true ∨
          T.Bare (T.passDown path g n allowed).1 (T.descend path n)) := by
  induction path generalizing g n allowed with
  | nil => exact ⟨capped, due⟩
  | cons s path ih =>
    obtain ⟨inner, child, rest⟩ := step_down member fits
    obtain ⟨granted, arrives⟩ := capped.grant s member inner due
    exact ih granted child rest fun handed => Or.inr (arrives handed)

/-- Keeping an allowance keeps a grid capped. -/
theorem keep (capped : T.Capped g)
    (due : allowed = true → (g n).managed = true ∨ T.Bare g n) :
    T.Capped (LayeredTree.keep g n allowed) := by
  unfold LayeredTree.keep
  cases allowed with
  | false =>
    rw [Bool.or_false]
    exact capped.update_same rfl rfl
  | true =>
    rw [Bool.or_true]
    have managed : ({ g n with held := true } : Cell).managed = true := by
      simp [Cell.managed]
    rcases due rfl with before | bare
    · exact capped.update_same (managed.trans before.symm) (parked_of_managed before)
    · exact capped.update_managed managed (fun m node above _ => bare.below m node above)
        bare.above bare.root

/-- A token that is handed down arrives exactly if it is allowed to a node that does not manage it,
or parked on the path. -/
theorem arrives_iff (path : List Side) (capped : T.Capped g) (member : T.Mem n)
    (fits : path.length ≤ T.layer n) (due : allowed = true → (g n).managed = true ∨ T.Bare g n)
    (whole : path = [] → allowed = true → (g n).managed = false) :
    (T.passDown path g n allowed).2 = true ↔
      allowed = true ∧ (g n).managed = false ∨
        ∃ m, T.Above n m ∧ T.Above m (T.descend path n) ∧ m ≠ T.descend path n ∧
          (g m).parked = true := by
  induction path generalizing g n allowed with
  | nil =>
    constructor
    · exact fun arrives => Or.inl ⟨arrives, whole rfl arrives⟩
    · rintro (⟨allow, -⟩ | ⟨m, above, below, different, -⟩)
      · exact allow
      · exact absurd (above.antisymm below member) different
  | cons s path ih =>
    obtain ⟨inner, child, rest⟩ := step_down member fits
    obtain ⟨node, -, onWay⟩ := T.descend_spec path child rest
    obtain ⟨granted, bare⟩ := capped.grant s member inner due
    have here := descend_ne member fits
    rw [LayeredTree.passDown, descend]
    rw [ih granted child rest (fun handed => Or.inr (bare handed))
      fun _ handed => (bare handed).below _ child (.refl _)]
    constructor
    · rintro (⟨handed, -⟩ | ⟨m, above, below, different, parked⟩)
      · rcases (handed_iff _ s _).mp handed with parked | fresh
        · exact Or.inr ⟨n, .refl n, onWay.of_child member inner, here.symm, parked⟩
        · exact Or.inl fresh
      · have away : n ≠ m := above.ne_of_child (below.mem node) member inner
        rw [Function.update_of_ne away.symm] at parked
        exact Or.inr ⟨m, above.of_child member inner, below, different, parked⟩
    · rintro (fresh | ⟨m, above, below, different, parked⟩)
      · have handed := (handed_iff _ s _).mpr (Or.inr fresh)
        exact Or.inl ⟨handed, (bare handed).below _ child (.refl _)⟩
      · by_cases start : n = m
        · subst start
          have handed := (handed_iff _ s allowed).mpr (Or.inl parked)
          exact Or.inl ⟨handed, (bare handed).below _ child (.refl _)⟩
        · have through := above_of_descend member fits above below start
          refine Or.inr ⟨m, through, below, different, ?_⟩
          rwa [Function.update_of_ne (Ne.symm start)]

/-- A token that does not arrive stays parked and on record where it was. -/
theorem passDown_of_spared (path : List Side) (capped : T.Capped g) (member : T.Mem n)
    (fits : path.length ≤ T.layer n) (due : allowed = true → (g n).managed = true ∨ T.Bare g n)
    (spared : (T.passDown path g n allowed).2 = false) (m : ν) :
    ((T.passDown path g n allowed).1 m).parked = (g m).parked ∧
      ((T.passDown path g n allowed).1 m).left = (g m).left ∧
      ((T.passDown path g n allowed).1 m).right = (g m).right := by
  induction path generalizing g n allowed with
  | nil => exact ⟨rfl, rfl, rfl⟩
  | cons s path ih =>
    obtain ⟨inner, child, rest⟩ := step_down member fits
    obtain ⟨granted, bare⟩ := capped.grant s member inner due
    have kept : (LayeredTree.grant (g n) s allowed).2 = false := by
      cases handed : (LayeredTree.grant (g n) s allowed).2 with
      | false => rfl
      | true =>
        have free := (bare handed).below _ child (.refl _)
        have arrives := (granted.arrives_iff path child (by omega)
          (fun handed => Or.inr (bare handed)) fun _ _ => free).mpr (Or.inl ⟨handed, free⟩)
        rw [LayeredTree.passDown] at spared
        rw [spared] at arrives
        cases arrives
    obtain ⟨parked, left, right⟩ :=
      ih granted child (by omega) (fun handed => Or.inr (bare handed)) spared
    obtain ⟨-, parked', left', right'⟩ := same_of_not_handed (g n) s allowed kept
    rw [LayeredTree.passDown, parked, left, right]
    by_cases here : m = n
    · subst here
      rw [Function.update_self]
      exact ⟨parked', left', right'⟩
    · rw [Function.update_of_ne here]
      exact ⟨rfl, rfl, rfl⟩

/-! ## Taking -/

/-- A withdrawal lets no node manage the token anew. -/
theorem managed_of_withdraw {m : ν} (l : Nat)
    (managed : (T.withdraw l g n m).managed = true) : (g m).managed = true := by
  have cleared {c : Cell} {g : Grid ν} {n : ν} (less : c.managed = true → (g n).managed = true)
      (after : (update g n c m).managed = true) : (g m).managed = true := by
    by_cases here : m = n
    · subst here
      rw [Function.update_self] at after
      exact less after
    · rwa [Function.update_of_ne here] at after
  induction l generalizing g n with
  | zero =>
    apply cleared (fun less => ?_) managed
    simp only [Cell.managed, Bool.or_eq_true] at less ⊢
    tauto
  | succ l ih =>
    rw [withdraw] at managed
    split at managed
    · apply cleared (fun less => ?_) (ih managed)
      simp only [Cell.managed, Bool.or_eq_true] at less ⊢
      tauto
    · split at managed
      · apply cleared (fun less => ?_) (ih managed)
        simp only [Cell.managed, Bool.or_eq_true] at less ⊢
        tauto
      · exact managed

/-- A claim that meets a record on the other side leads to a root that manages the token. -/
theorem managed_root_of_taken (h : Nat) {s : Side} (member : T.Mem n) (inner : T.layer n ≠ 0)
    (rooted : (g n).managed = true → (g T.root).managed = true)
    (taken : (g n).on s.other = true) : (T.claim h g n s T.root).managed = true := by
  have low := T.layer_lt_root (T.child_mem s.other member inner) (T.child_ne_root _ member inner)
  have outside : ¬ T.Above (T.child s.other n) T.root := by
    intro above
    have high := above.layer_le T.root_mem
    omega
  rw [claim_of_taken taken, withdraw_frame _ _ _ (T.child_mem s.other member inner) rfl outside]
  by_cases isRoot : n = T.root
  · rw [← isRoot, Function.update_self]
    exact Cell.managed_of_on (s := s) (by simp)
  · rw [Function.update_of_ne (Ne.symm isRoot)]
    exact rooted (Cell.managed_of_on taken)

/-- A claim leads to a root that manages the token. -/
theorem managed_root_of_claim (h : Nat) {s : Side} (member : T.Mem n) (inner : T.layer n ≠ 0)
    (height : T.layer T.root - T.layer n = h)
    (rooted : ∀ m, T.Above m n → (g m).managed = true → (g T.root).managed = true) :
    (T.claim h g n s T.root).managed = true := by
  induction h generalizing g n s with
  | zero =>
    have isRoot := T.eq_root_of_le member (by omega)
    cases taken : (g n).on s.other with
    | true => exact managed_root_of_taken 0 member inner (rooted n (.refl n)) taken
    | false =>
      subst isRoot
      rw [claim_of_root taken, Function.update_self]
      exact Cell.managed_of_on (s := s) (by simp)
  | succ h ih =>
    have notRoot : n ≠ T.root := by
      intro isRoot
      rw [isRoot] at height
      omega
    have raised := T.layer_parent member notRoot
    cases taken : (g n).on s.other with
    | true => exact managed_root_of_taken (h + 1) member inner (rooted n (.refl n)) taken
    | false =>
      rw [claim_of_free taken notRoot]
      apply ih (T.parent_mem member notRoot) (T.layer_parent_ne_zero member notRoot) (by omega)
      intro m above managed
      rw [Function.update_of_ne (above.ne_of_parent member notRoot)] at managed
      rw [Function.update_of_ne (Ne.symm notRoot)]
      exact rooted m (above.of_parent notRoot) managed

/-- A claim lets no node off its way manage the token anew. -/
theorem managed_of_claim {m : ν} (h : Nat) {s : Side} (member : T.Mem n)
    (outside : ¬ T.Above m n) (managed : (T.claim h g n s m).managed = true) :
    (g m).managed = true := by
  have spared {g : Grid ν} {n : ν} {c : Cell} (outside : ¬ T.Above m n)
      (managed : (update g n c m).managed = true) : (g m).managed = true := by
    have away : m ≠ n := fun here => outside (here ▸ .refl m)
    rwa [Function.update_of_ne away] at managed
  induction h generalizing g n s with
  | zero =>
    cases taken : (g n).on s.other with
    | true =>
      rw [claim_of_taken taken] at managed
      exact spared outside (managed_of_withdraw _ managed)
    | false =>
      simp only [claim, taken, Bool.false_eq_true, ↓reduceIte, ite_self] at managed
      exact spared outside managed
  | succ h ih =>
    cases taken : (g n).on s.other with
    | true =>
      rw [claim_of_taken taken] at managed
      exact spared outside (managed_of_withdraw _ managed)
    | false =>
      by_cases isRoot : n = T.root
      · subst isRoot
        rw [claim_of_root taken] at managed
        exact spared outside managed
      · rw [claim_of_free taken isRoot] at managed
        have higher : ¬ T.Above m (T.parent n) := fun above => outside (above.of_parent isRoot)
        exact spared outside (ih (T.parent_mem member isRoot) higher managed)

/-- A claim that comes across a node that has parked the token puts the token on record there. -/
theorem parked_of_claim {p : ν} (h : Nat) {s : Side} (member : T.Mem p) (inner : T.layer p ≠ 0)
    (height : T.layer T.root - T.layer p = h) (above : T.Above n p)
    (parked : (g n).parked = true)
    (free : ∀ b, T.Above b p → T.Above n b → n ≠ b → (g b).managed = false) :
    (T.claim h g p s n).parked = false := by
  have unrecorded : (g p).on s.other = false := by
    by_cases here : n = p
    · exact on_of_parked (here ▸ parked) s.other
    · exact on_of_unmanaged (free p (.refl p) above here) s.other
  induction h generalizing g p s with
  | zero =>
    have isRoot := T.eq_root_of_le member (by omega)
    have here : n = p := by
      by_contra different
      exact (above.parent_of_ne different).1 isRoot
    subst here
    rw [isRoot] at unrecorded ⊢
    rw [claim_of_root unrecorded, Function.update_self]
    exact Cell.parked_of_on (s := s) (by simp)
  | succ h ih =>
    have notRoot : p ≠ T.root := by
      intro isRoot
      rw [isRoot] at height
      omega
    have raised := T.layer_parent member notRoot
    have high := T.parent_mem member notRoot
    have inner' := T.layer_parent_ne_zero member notRoot
    rw [claim_of_free unrecorded notRoot]
    by_cases here : n = p
    · subst here
      rw [claim_frame member _ _ _ _ high inner', Function.update_self]
      · exact Cell.parked_of_on (s := s) (by simp)
      · rw [T.child_side member notRoot]
        exact .refl n
    · have up := (above.parent_of_ne here).2
      have spared {b : ν} (higher : T.Above b (T.parent p)) :
          update g p { (g p).setOn s true with held := false } b = g b :=
        Function.update_of_ne (higher.ne_of_parent member notRoot) _ _
      have free' : ∀ b, T.Above b (T.parent p) → T.Above n b → n ≠ b →
          (update g p { (g p).setOn s true with held := false } b).managed = false := by
        intro b higher under different
        rw [spared higher]
        exact free b (higher.of_parent notRoot) under different
      have parked' : (update g p { (g p).setOn s true with held := false } n).parked = true := by
        rwa [spared up]
      refine ih high inner' (by omega) up parked' free' ?_
      by_cases atParent : n = T.parent p
      · rw [← atParent]
        exact on_of_parked parked' _
      · exact on_of_unmanaged (free' _ (.refl _) up atParent) _

/-- Taking the token at a leaf keeps a grid capped. -/
theorem take (capped : T.Capped g) {leaf : ν} (member : T.Mem leaf) (low : T.layer leaf = 0) :
    T.Capped (T.take g leaf) := by
  cases held : (g leaf).held with
  | true =>
    rw [LayeredTree.take, if_pos held]
    exact capped
  | false =>
    have absent : ¬ (g leaf).held = true := by simp [held]
    by_cases isRoot : leaf = T.root
    · -- there is no other node
      have lowest : T.layer T.root = 0 := isRoot ▸ low
      have only {n : ν} (node : T.Mem n) : n = leaf :=
        (T.eq_root_of_le node (by omega)).trans isRoot.symm
      have managed : (T.take g leaf T.root).managed = true := by
        rw [← isRoot, Cell.managed, held_take member]
        rfl
      refine ⟨fun _ _ _ => managed, fun n m node above different _ => ?_⟩
      exact absurd ((only (above.mem node)).trans (only node).symm) different
    · have high := T.parent_mem member isRoot
      have inner := T.layer_parent_ne_zero member isRoot
      have taken : T.take g leaf = T.claim (T.layer T.root - T.layer (T.parent leaf))
          (update g leaf { g leaf with held := true }) (T.parent leaf) (T.side leaf) := by
        rw [LayeredTree.take, if_neg absent, if_neg isRoot]
      have spared {m : ν} (different : m ≠ leaf) :
          update g leaf { g leaf with held := true } m = g m := Function.update_of_ne different _ _
      refine ⟨fun _ _ _ => ?_, fun n m node above different managed => ?_⟩
      · rw [taken]
        apply managed_root_of_claim _ high inner rfl
        intro m above managed
        rw [spared (above.ne_of_parent member isRoot)] at managed
        rw [spared (Ne.symm isRoot)]
        exact capped.root m (above.mem high) managed
      · have virtual : n ≠ leaf := by
          rintro rfl
          have bound := above.layer_le node
          exact different (above.eq_of_layer (.refl m) node (by omega))
        by_contra still
        have parked : (g n).parked = true :=
          parked_of_take virtual (by simpa using still)
        by_cases onWay : T.Above m leaf
        · -- the claim comes across the node
          have up := ((above.trans onWay).parent_of_ne virtual).2
          apply still
          rw [taken]
          apply parked_of_claim _ high inner rfl up
          · rwa [spared virtual]
          · intro b higher under other
            rw [spared (higher.ne_of_parent member isRoot)]
            exact capped.unmanaged (higher.mem high) under other parked
        · have away : m ≠ leaf := by
            rintro rfl
            exact onWay (.refl m)
          have off : ¬ T.Above m (T.parent leaf) := fun higher =>
            onWay (higher.of_parent isRoot)
          rw [taken] at managed
          have before := managed_of_claim _ high off managed
          rw [spared away, capped.unmanaged node above different parked] at before
          cases before

/-- Dispatching an allowance keeps a grid capped. -/
theorem dispatch (path : List Side) (capped : T.Capped g) (member : T.Mem n)
    (fits : path.length ≤ T.layer n)
    (due : allowed = true → (g n).managed = true ∨ T.Bare g n) :
    T.Capped (T.dispatch path g n allowed) := by
  obtain ⟨node, -, -⟩ := T.descend_spec path member fits
  obtain ⟨down, arrives⟩ := capped.passDown path member fits due
  have kept := down.keep arrives
  rw [LayeredTree.dispatch]
  split
  · exact kept.take node ‹_›
  · exact kept

end Capped

/-! ## Claims that find their own side on record -/

/-- Every node that a claim comes across has the token on record not on the side that the claim is
for. -/
def Unclaimed (T : LayeredTree ν) (g : Grid ν) : Nat → ν → Side → Prop
  | 0, n, s => (g n).on s = false
  | h + 1, n, s => (g n).on s = false ∧ ((g n).on s.other = false → n ≠ T.root →
      Unclaimed T g h (T.parent n) (T.side n))

/-- A claim sees only the nodes from which it starts upwards. -/
theorem unclaimed_congr {g g' : Grid ν} {h : Nat} {n : ν} {s : Side}
    (same : ∀ a, T.Above a n → g a = g' a) : T.Unclaimed g h n s ↔ T.Unclaimed g' h n s := by
  induction h generalizing n s with
  | zero => rw [Unclaimed, Unclaimed, same n (.refl n)]
  | succ h ih =>
    rw [Unclaimed, Unclaimed, same n (.refl n)]
    constructor
    · rintro ⟨own, higher⟩
      refine ⟨own, fun free notRoot => ?_⟩
      exact (ih fun a above => same a (above.of_parent notRoot)).mp
        (higher free notRoot)
    · rintro ⟨own, higher⟩
      refine ⟨own, fun free notRoot => ?_⟩
      exact (ih fun a above => same a (above.of_parent notRoot)).mpr
        (higher free notRoot)

/-- A cell without a record on one side and on the other has no records. -/
theorem no_records {c : Cell} (s : Side) (own : c.on s = false) (other : c.on s.other = false) :
    c.left = false ∧ c.right = false := by
  cases s with
  | left => exact ⟨own, other⟩
  | right => exact ⟨other, own⟩

/-- A record about a node without records means that the node has parked the token. -/
theorem Law.parked_of_recorded {g : Grid ν} (sound : T.Sound g) {c : ν} (member : T.Mem c)
    (notRoot : c ≠ T.root) (free : (g c).left = false ∧ (g c).right = false)
    (recorded : T.recorded g c = true) : (g c).parked = true := by
  have managed := sound.edge c member notRoot recorded
  rw [Cell.managed, free.1, free.2, Bool.or_false, Bool.or_false] at managed
  rw [Cell.parked, managed, free.1, free.2]
  rfl

/-- A claim that comes from a node without records finds its own side on record nowhere, exactly if
no node from there upwards has parked the token and is on record with its parent. -/
theorem Capped.unclaimed_iff {g : Grid ν} (capped : T.Capped g) (sound : T.Sound g) (h : Nat)
    {c : ν} (member : T.Mem c) (notRoot : c ≠ T.root)
    (height : T.layer T.root - T.layer (T.parent c) = h)
    (free : (g c).left = false ∧ (g c).right = false) :
    T.Unclaimed g h (T.parent c) (T.side c) ↔
      ∀ a, T.Above a c → a ≠ T.root → (g a).parked = true → T.recorded g a = false := by
  have own {c : ν} (member : T.Mem c) (notRoot : c ≠ T.root)
      (free : (g c).left = false ∧ (g c).right = false)
      (parks : (g c).parked = true → T.recorded g c = false) : T.recorded g c = false := by
    by_contra recorded
    have set : T.recorded g c = true := by simpa using recorded
    exact recorded (parks (sound.parked_of_recorded member notRoot free set))
  induction h generalizing c with
  | zero =>
    have high := T.eq_root_of_le (T.parent_mem member notRoot) (by omega)
    constructor
    · intro unclaimed a above notRoot' _
      by_cases here : a = c
      · rw [here]
        exact unclaimed
      · have up := (above.parent_of_ne here).2
        rw [high] at up
        exact absurd rfl (up.parent_of_ne notRoot').1
    · exact fun parks => own member notRoot free (parks c (.refl c) notRoot)
  | succ h ih =>
    have inside : T.parent c ≠ T.root := by
      intro isRoot
      rw [isRoot] at height
      omega
    have high := T.parent_mem member notRoot
    have raised := T.layer_parent high inside
    rw [Unclaimed]
    constructor
    · rintro ⟨unrecorded, higher⟩ a above notRoot' parked
      by_cases here : a = c
      · rw [here]
        exact unrecorded
      · have up := (above.parent_of_ne here).2
        cases other : (g (T.parent c)).on (T.side c).other with
        | true =>
          -- the parent manages the token, so nothing above it has parked it
          have clear : (g a).parked = false := by
            by_cases atParent : a = T.parent c
            · rw [atParent]
              exact Cell.parked_of_on other
            · exact capped.clear a _ high up atParent (Cell.managed_of_on other)
          rw [clear] at parked
          cases parked
        | false =>
          have passed := no_records _ unrecorded other
          exact (ih high inside (by omega) passed).mp (higher other inside) a up notRoot' parked
    · intro parks
      have unrecorded := own member notRoot free (parks c (.refl c) notRoot)
      refine ⟨unrecorded, fun other _ => ?_⟩
      apply (ih high inside (by omega) (no_records _ unrecorded other)).mpr
      exact fun a up => parks a (up.of_parent notRoot)

end TokenTree.LayeredTree
