import AllScale.Lib.TokenLaws

/-!
# Handing a token down and finding it again

The other way a token moves is downwards: a node is allowed the token and hands it to one
child, which does the same, until a node keeps it. The law holds along the way except for one
hole at the node the allowance has arrived at, and that node closes it. The last part reads
`Routed` as a routing table: from any ancestor of the leaf that holds the token the records lead
to that leaf, so no second leaf holds it.
-/

namespace TokenTree

open Function (update)

namespace LayeredTree

variable {ν : Type} {T : LayeredTree ν} {R : Bool → Bool → Prop}

/-! ## One grant -/

/-- A node manages the token after a grant when it did before or is allowed it. -/
theorem managed_grant (c : Cell) (s : Side) (allowed : Bool) :
    (grant c s allowed).1.managed = (c.managed || allowed) := by
  obtain ⟨held, left, right⟩ := c
  cases s <;> cases held <;> cases left <;> cases right <;> cases allowed <;> rfl

/-- A grant records the side the token is handed to. -/
theorem on_grant (c : Cell) (s : Side) (allowed : Bool) :
    (grant c s allowed).1.on s = (c.on s || (grant c s allowed).2) := by
  simp [grant]

/-- A grant leaves the record of the other side alone. -/
theorem on_other_grant (c : Cell) (s : Side) (allowed : Bool) :
    (grant c s allowed).1.on s.other = c.on s.other := by
  simp [grant]

/-- A token is handed on only past a node that has it recorded on neither side. -/
theorem free_of_grant {c : Cell} {s : Side} {allowed : Bool}
    (handed : (grant c s allowed).2 = true) : c.on s = false ∧ c.on s.other = false := by
  simp only [grant, Bool.and_eq_true, Bool.not_eq_eq_eq_not, Bool.not_true] at handed
  exact ⟨handed.1.1, handed.2⟩

/-- A grant records the token on one side only. -/
theorem disjoint_grant {c : Cell} (s : Side) (allowed : Bool)
    (disjoint : c.left = true → c.right = false) :
    (grant c s allowed).1.left = true → (grant c s allowed).1.right = false := by
  obtain ⟨held, left, right⟩ := c
  revert disjoint
  cases s <;> cases held <;> cases left <;> cases right <;> cases allowed <;> decide

/-- A node that grants does not keep the token parked. -/
theorem parked_grant (c : Cell) (s : Side) (allowed : Bool) :
    (grant c s allowed).1.parked = false := by
  obtain ⟨held, left, right⟩ := c
  cases s <;> cases held <;> cases left <;> cases right <;> cases allowed <;> rfl

/-! ## Paths -/

/-- A path that stays inside the tree starts at a virtual node and goes on from a child. -/
theorem step_down {s : Side} {path : List Side} {n : ν} (member : T.Mem n)
    (fits : (s :: path).length ≤ T.layer n) :
    T.layer n ≠ 0 ∧ T.Mem (T.child s n) ∧ path.length ≤ T.layer (T.child s n) := by
  rw [List.length_cons] at fits
  have inner : T.layer n ≠ 0 := by omega
  have below := T.layer_child s member inner
  exact ⟨inner, T.child_mem s member inner, by omega⟩

/-- A path no longer than the layer of its first node stays inside the tree. -/
theorem descend_spec (path : List Side) {n : ν} (member : T.Mem n)
    (fits : path.length ≤ T.layer n) :
    T.Mem (T.descend path n) ∧ T.layer (T.descend path n) + path.length = T.layer n ∧
      T.Above n (T.descend path n) := by
  induction path generalizing n with
  | nil => exact ⟨member, rfl, .refl _⟩
  | cons s path ih =>
    obtain ⟨inner, child, rest⟩ := step_down member fits
    have below := T.layer_child s member inner
    obtain ⟨node, depth, above⟩ := ih child rest
    refine ⟨node, ?_, above.of_child member inner⟩
    rw [descend, List.length_cons]
    omega

/-- A path with a turn does not end where it starts. -/
theorem descend_ne {s : Side} {path : List Side} {n : ν} (member : T.Mem n)
    (fits : (s :: path).length ≤ T.layer n) : T.descend path (T.child s n) ≠ n := by
  intro same
  have depth : T.layer (T.descend path (T.child s n)) + (s :: path).length = T.layer n :=
    (T.descend_spec (s :: path) member fits).2.1
  rw [same, List.length_cons] at depth
  omega

/-- A node on a path is its start or lies below the child that the path goes to. -/
theorem above_of_descend {s : Side} {path : List Side} {n m : ν} (member : T.Mem n)
    (fits : (s :: path).length ≤ T.layer n) (above : T.Above n m)
    (under : T.Above m (T.descend path (T.child s n))) (different : n ≠ m) :
    T.Above (T.child s n) m := by
  obtain ⟨inner, child, rest⟩ := step_down member fits
  obtain ⟨last, -, onWay⟩ := T.descend_spec path child rest
  obtain ⟨t, through⟩ := above.child_of_ne (under.mem last) different
  have side : t = s := by
    by_contra turned
    have other := (through.trans under).not_sibling last member inner
    rw [Side.eq_other_of_ne turned, Side.other_other] at other
    exact other onWay
  exact side ▸ through

/-! ## Following the records -/

/-- When every node on the way to a leaf is on record, the records lead from each of them to that
leaf. -/
theorem trail_of_recorded {g : Grid ν} {leaf a : ν}
    (disjoint : ∀ n, T.Mem n → (g n).left = true → (g n).right = false) (member : T.Mem leaf)
    (low : T.layer leaf = 0)
    (recorded : ∀ n, T.Above n leaf → n ≠ T.root → T.recorded g n = true)
    (above : T.Above a leaf) : T.trail g (T.layer a) a = some leaf := by
  induction above with
  | refl => rw [low]; rfl
  | @up a leaf above notRoot ih =>
    have node := above.mem member
    have record := recorded a above notRoot
    have back := T.child_side node notRoot
    have found := ih member low recorded
    rw [LayeredTree.recorded] at record
    rw [T.layer_parent node notRoot, trail]
    cases side : T.side a with
    | left =>
      rw [side] at record back
      rw [if_pos (show (g (T.parent a)).left = true from record), back]
      exact found
    | right =>
      rw [side] at record back
      have free : (g (T.parent a)).left ≠ true := fun left => by
        have := disjoint _ (T.parent_mem node notRoot) left
        simp [Cell.on, this] at record
      rw [if_neg free, if_pos (show (g (T.parent a)).right = true from record), back]
      exact found

/-- In a routed grid every node above a node that manages the token manages it. -/
theorem Law.managed_of_above {g : Grid ν} (law : T.Routed g) {n a : ν} (member : T.Mem n)
    (managed : (g n).managed = true) (above : T.Above a n) : (g a).managed = true := by
  induction above with
  | refl => exact managed
  | @up b n onWay notRoot ih =>
    have recorded := law.edge b (onWay.mem member) notRoot
    rw [ih member managed, LayeredTree.recorded] at recorded
    exact Cell.managed_of_on recorded

/-- In a routed grid every node above the leaf that holds the token manages it, and the records
lead from there to that leaf. -/
theorem Law.trail_eq {g : Grid ν} (law : T.Routed g) {leaf a : ν} (member : T.Mem leaf)
    (low : T.layer leaf = 0) (held : (g leaf).held = true) (above : T.Above a leaf) :
    (g a).managed = true ∧ T.trail g (T.layer a) a = some leaf := by
  have managed {b : ν} (onWay : T.Above b leaf) : (g b).managed = true :=
    law.managed_of_above member (by simp [Cell.managed, held]) onWay
  exact ⟨managed above, trail_of_recorded law.disjoint member low (fun n onWay notRoot =>
    (law.edge n (onWay.mem member) notRoot).trans (managed onWay)) above⟩

/-- When the records lead from a node to another, that is a leaf below the node, and all nodes
between the two are on record. -/
theorem recorded_of_trail {g : Grid ν} {l : Nat} {n leaf : ν} (member : T.Mem n)
    (height : T.layer n = l) (found : T.trail g l n = some leaf) :
    T.layer leaf = 0 ∧ T.Mem leaf ∧ T.Above n leaf ∧
      ∀ m, T.Above n m → T.Above m leaf → m ≠ n → T.recorded g m = true := by
  induction l generalizing n with
  | zero =>
    obtain rfl := Option.some.inj found
    refine ⟨height, member, .refl _, fun m above below different => absurd ?_ different⟩
    have high := above.layer_le (below.mem member)
    exact below.eq_of_layer (.refl _) member (Nat.le_antisymm high (below.layer_le member))
  | succ l ih =>
    have inner : T.layer n ≠ 0 := by omega
    have turn (s : Side) (record : (g n).on s = true)
        (found : T.trail g l (T.child s n) = some leaf) :
        T.layer leaf = 0 ∧ T.Mem leaf ∧ T.Above n leaf ∧
          ∀ m, T.Above n m → T.Above m leaf → m ≠ n → T.recorded g m = true := by
      have below := T.layer_child s member inner
      obtain ⟨low, node, above, between⟩ := ih (T.child_mem s member inner) (by omega) found
      refine ⟨low, node, above.of_child member inner, fun m high lower different => ?_⟩
      by_cases first : m = T.child s n
      · rw [first, T.recorded_child s member inner]
        exact record
      · -- a node strictly below `n` on the way to the leaf is below that child
        have place := lower.mem node
        obtain ⟨t, through⟩ := high.child_of_ne place different.symm
        have same := (through.trans lower).eq_of_layer above node (by
          have other := T.layer_child t member inner
          omega)
        rw [same] at through
        exact between m through lower first
    rw [trail] at found
    split at found
    · exact turn .left ‹_› found
    · split at found
      · exact turn .right ‹_› found
      · simp at found

/-- The records lead from the root to a leaf exactly if every node on the way is on record. -/
theorem trail_root_iff {g : Grid ν} {leaf : ν}
    (disjoint : ∀ n, T.Mem n → (g n).left = true → (g n).right = false) (member : T.Mem leaf)
    (low : T.layer leaf = 0) :
    T.trail g (T.layer T.root) T.root = some leaf ↔
      ∀ n, T.Above n leaf → n ≠ T.root → T.recorded g n = true := by
  constructor
  · intro found n above notRoot
    exact (recorded_of_trail T.root_mem rfl found).2.2.2 n (.root (above.mem member)) above notRoot
  · exact fun recorded => trail_of_recorded disjoint member low recorded (.root member)

/-- In a routed grid an ancestor of the leaf that holds the token has it on record on the side of
that leaf. -/
theorem Law.on_other_of_above {g : Grid ν} (law : T.Routed g) {owner : ν} (place : T.Mem owner)
    (low : T.layer owner = 0) (held : (g owner).held = true) {n : ν} {s : Side}
    (member : T.Mem n) (inner : T.layer n ≠ 0) (onWay : T.Above n owner)
    (outside : ¬ T.Above (T.child s n) owner) : (g n).on s.other = true := by
  have below := onWay.child_other place low inner outside
  rw [← T.recorded_child s.other member inner, law.edge _ (T.child_mem _ member inner)
    (T.child_ne_root _ member inner)]
  exact (law.trail_eq place low held below).1

/-- In a routed grid no inner node above the leaf that holds the token has it parked. -/
theorem Law.parked_of_above {g : Grid ν} (law : T.Routed g) {leaf a : ν} (member : T.Mem leaf)
    (low : T.layer leaf = 0) (held : (g leaf).held = true) (above : T.Above a leaf)
    (inner : T.layer a ≠ 0) : (g a).parked = false := by
  have found := (law.trail_eq member low held above).2
  obtain ⟨l, height⟩ := Nat.exists_eq_succ_of_ne_zero inner
  rw [height, trail] at found
  cases left : (g a).left with
  | true => exact Cell.parked_of_on (s := .left) left
  | false =>
    cases right : (g a).right with
    | true => exact Cell.parked_of_on (s := .right) right
    | false => simp [left, right] at found

/-- In a routed grid at most one leaf holds the token. -/
theorem Law.held_unique {g : Grid ν} (law : T.Routed g) {first second : ν}
    (member : T.Mem first) (low : T.layer first = 0) (held : (g first).held = true)
    (member' : T.Mem second) (low' : T.layer second = 0) (held' : (g second).held = true) :
    first = second := by
  have here := (law.trail_eq member low held (Above.root member)).2
  have there := (law.trail_eq member' low' held' (Above.root member')).2
  rw [here] at there
  exact Option.some.inj there

/-- A leaf that holds the token, or an inner node from which a record leads on. -/
def Tracked (T : LayeredTree ν) (g : Grid ν) (n : ν) : Prop :=
  (T.layer n = 0 → (g n).held = true) ∧
    (T.layer n ≠ 0 → (g n).left = true ∨ (g n).right = true)

/-- Every record leads to a leaf that holds the token or to a further record. -/
def Settled (T : LayeredTree ν) (g : Grid ν) : Prop :=
  ∀ n, T.Mem n → n ≠ T.root → T.recorded g n = true → T.Tracked g n

/-- In a sound grid the records can lead to nothing but a node that has parked the token. -/
theorem Law.tracked_iff {g : Grid ν} (law : T.Sound g) {n : ν} (member : T.Mem n)
    (notRoot : n ≠ T.root) (recorded : T.recorded g n = true) :
    T.Tracked g n ↔ (T.layer n ≠ 0 → (g n).parked = false) := by
  have managed := law.edge n member notRoot recorded
  rw [Cell.managed, Bool.or_eq_true, Bool.or_eq_true] at managed
  constructor
  · intro tracked inner
    rcases tracked.2 inner with left | right
    · exact Cell.parked_of_on (s := .left) left
    · exact Cell.parked_of_on (s := .right) right
  · intro free
    refine ⟨fun low => ?_, fun inner => ?_⟩
    · have flags := law.leaf n member low
      rcases managed with (held | left) | right
      · exact held
      · exact absurd left (by rw [flags.1]; decide)
      · exact absurd right (by rw [flags.2]; decide)
    · have away := free inner
      rcases managed with (held | left) | right
      · cases left : (g n).left <;> cases right : (g n).right <;>
          simp_all [Cell.parked]
      · exact Or.inl left
      · exact Or.inr right

/-! ## Handing down -/

variable [DecidableEq ν]

/-- The law with a hole at a node that has been allowed the token and has not yet kept it. -/
structure Arriving (T : LayeredTree ν) (R : Bool → Bool → Prop) (n : ν) (g : Grid ν)
    (allowed : Bool) : Prop where
  /-- The law holds elsewhere. -/
  but : T.LawBut R n g
  /-- The record about the node is right once the node keeps what it is allowed. -/
  due : n ≠ T.root → R (T.recorded g n) ((g n).managed || allowed)

/-- Granting moves the hole to the child the token is handed to. -/
theorem Arriving.grant {g : Grid ν} {n : ν} {allowed : Bool} (s : Side)
    (raises : R true true) (arriving : Arriving T R n g allowed) (member : T.Mem n)
    (inner : T.layer n ≠ 0) :
    Arriving T R (T.child s n) (update g n (grant (g n) s allowed).1)
      (grant (g n) s allowed).2 := by
  have law := arriving.but
  have low (t : Side) := T.child_ne_self t member inner
  constructor
  · refine law.move member inner (.inl rfl) (disjoint_grant s allowed (law.disjoint n member))
      (fun notRoot _ => ?_) fun t away => ?_
    · rw [managed_grant]
      exact arriving.due notRoot
    · have turned : t = s.other := Side.eq_other_of_ne fun h => away (h ▸ rfl)
      rw [turned, on_other_grant]
      exact law.child _ member inner (low _)
  · intro _
    rw [T.recorded_child s member inner, Function.update_self, Function.update_of_ne (low s),
      on_grant]
    cases handed : (LayeredTree.grant (g n) s allowed).2 with
    | true => simpa using raises
    | false => simpa using law.child s member inner (low s)

/-- Handing an allowance down a path moves the hole to the end of the path. -/
theorem Arriving.passDown (raises : R true true) (path : List Side) {g : Grid ν} {n : ν}
    {allowed : Bool} (arriving : Arriving T R n g allowed) (member : T.Mem n)
    (fits : path.length ≤ T.layer n) :
    Arriving T R (T.descend path n) (T.passDown path g n allowed).1
      (T.passDown path g n allowed).2 := by
  induction path generalizing g n allowed with
  | nil => exact arriving
  | cons s path ih =>
    obtain ⟨inner, child, rest⟩ := step_down member fits
    exact ih (arriving.grant s raises member inner) child rest

/-- Keeping the allowance fills the hole. -/
theorem Arriving.keep {g : Grid ν} {n : ν} {allowed : Bool} (arriving : Arriving T R n g allowed) :
    T.Law R (keep g n allowed) := by
  have law := arriving.but
  have kept : ({ g n with held := (g n).held || allowed } : Cell).managed =
      ((g n).managed || allowed) := by
    simp only [Cell.managed]
    ac_rfl
  refine ⟨fun m node => ?_, fun m node leaf => ?_, fun m node notRoot => ?_⟩
  · by_cases h : m = n
    · subst h
      simpa [LayeredTree.keep] using law.disjoint m node
    · simpa [LayeredTree.keep, Function.update_of_ne h] using law.disjoint m node
  · by_cases h : m = n
    · subst h
      simpa [LayeredTree.keep] using law.leaf m node leaf
    · simpa [LayeredTree.keep, Function.update_of_ne h] using law.leaf m node leaf
  · have unchanged : T.recorded (LayeredTree.keep g n allowed) m = T.recorded g m := by
      rw [LayeredTree.keep, T.recorded_update]
      split
      · rename_i up
        simp [LayeredTree.recorded, up]
      · rfl
    rw [unchanged]
    by_cases h : m = n
    · subst h
      rw [LayeredTree.keep, Function.update_self, kept]
      exact arriving.due notRoot
    · rw [LayeredTree.keep, Function.update_of_ne h]
      exact law.edge m node notRoot h

/-- Handing an allowance down leaves every node alone that is not on the way to the end of the
path. -/
theorem passDown_frame {m : ν} (path : List Side) {g : Grid ν} {n : ν} {allowed : Bool}
    (member : T.Mem n) (fits : path.length ≤ T.layer n)
    (outside : ¬ T.Above m (T.descend path n)) : (T.passDown path g n allowed).1 m = g m := by
  induction path generalizing g n allowed with
  | nil => rfl
  | cons s path ih =>
    obtain ⟨inner, child, rest⟩ := step_down member fits
    have above := (T.descend_spec path child rest).2.2
    have h : m ≠ n := by
      rintro rfl
      exact outside (above.of_child member inner)
    rw [LayeredTree.passDown, ih child rest outside, Function.update_of_ne h]

/-- The end of the path has not been touched while the allowance was on its way. -/
theorem passDown_end (path : List Side) {g : Grid ν} {n : ν} {allowed : Bool}
    (member : T.Mem n) (fits : path.length ≤ T.layer n) :
    (T.passDown path g n allowed).1 (T.descend path n) = g (T.descend path n) := by
  induction path generalizing g n allowed with
  | nil => rfl
  | cons s path ih =>
    obtain ⟨-, child, rest⟩ := step_down member fits
    rw [LayeredTree.passDown, descend, ih child rest,
      Function.update_of_ne (descend_ne member fits)]

/-- Handing an allowance down parks the token nowhere. -/
theorem parked_of_passDown {m : ν} (path : List Side) {g : Grid ν} {n : ν} {allowed : Bool}
    (parked : ((T.passDown path g n allowed).1 m).parked = true) : (g m).parked = true := by
  induction path generalizing g n allowed with
  | nil => exact parked
  | cons s path ih =>
    have before := ih parked
    by_cases h : m = n
    · subst h
      simp [parked_grant] at before
    · rwa [Function.update_of_ne h] at before

/-- Handing an allowance down takes the token from no node. -/
theorem held_passDown {m : ν} (path : List Side) {g : Grid ν} {n : ν} {allowed : Bool}
    (held : (g m).held = true) : ((T.passDown path g n allowed).1 m).held = true := by
  induction path generalizing g n allowed with
  | nil => exact held
  | cons s path ih =>
    refine ih ?_
    by_cases h : m = n
    · subst h
      simp [LayeredTree.grant, held]
    · rwa [Function.update_of_ne h]

/-- Keeping an allowance takes the token from no node. -/
theorem held_keep {m : ν} {g : Grid ν} {n : ν} {allowed : Bool} (held : (g m).held = true) :
    ((LayeredTree.keep g n allowed) m).held = true := by
  rw [LayeredTree.keep]
  by_cases h : m = n
  · subst h
    simp [held]
  · rwa [Function.update_of_ne h]

/-- Dispatching an allowance gives the law, when every inner node off the way from the leaf that
takes the token to the root may hold it unrecorded. -/
theorem Arriving.dispatch (reflexive : ∀ flag, R flag flag) (path : List Side) {g : Grid ν}
    {n : ν} {allowed : Bool} (arriving : Arriving T R n g allowed) (member : T.Mem n)
    (fits : path.length ≤ T.layer n)
    (stuck : ∀ m, T.layer (T.descend path n) = 0 → T.Mem m → T.layer m ≠ 0 →
      ¬ T.Above m (T.descend path n) → (g (T.descend path n)).held = false →
      (g m).parked = true → R false true) :
    T.Law R (T.dispatch path g n allowed) := by
  obtain ⟨node, -, -⟩ := T.descend_spec path member fits
  have kept := (arriving.passDown (reflexive true) path member fits).keep
  rw [LayeredTree.dispatch]
  split
  · rename_i low
    refine kept.take reflexive node low fun m place inner outside held parked => ?_
    have h : m ≠ T.descend path n := fun h => inner (h ▸ low)
    have before : (g (T.descend path n)).held = false := by
      rw [LayeredTree.keep, Function.update_self, Bool.or_eq_false_iff,
        passDown_end path member fits] at held
      exact held.1
    rw [LayeredTree.keep, Function.update_of_ne h,
      passDown_frame path member fits outside] at parked
    exact stuck m low place inner outside before parked
  · exact kept

end LayeredTree

end TokenTree
