import Mathlib.Logic.Function.Basic
import AllScale.SchedulePolicy.DecisionTree

/-!
# Decision trees as maps

A decision tree starts with `done` for every path and then refines the map from paths to decisions
that the calls of `set` describe. Sets on different paths can be swapped: they leave the same bytes
behind, although four decisions share one.
-/

namespace AllScale

/-! ## Slots of a byte -/

/-- Writes to different slots of a byte can be swapped. -/
theorem writeSlot_comm (byte : BitVec 8) {bitPos other : Nat} (inside : bitPos + 2 ≤ 8)
    (inside' : other + 2 ≤ 8) (apart : bitPos + 2 ≤ other ∨ other + 2 ≤ bitPos)
    (decision decision' : ScheduleDecision) :
    writeSlot (writeSlot byte bitPos decision) other decision' =
      writeSlot (writeSlot byte other decision') bitPos decision := by
  apply BitVec.eq_of_getLsbD_eq
  intro i _
  simp only [getLsbD_writeSlot _ inside, getLsbD_writeSlot _ inside']
  by_cases first : bitPos ≤ i ∧ i < bitPos + 2
  · have second : ¬ (other ≤ i ∧ i < other + 2) := by omega
    rw [if_pos first, if_neg second, if_pos first]
  · rw [if_neg first, if_neg first]

/-- An empty byte has no decisions. -/
theorem readSlot_zero (bitPos : Nat) : readSlot 0 bitPos = .done := by
  have bits : (0 : BitVec 8) >>> bitPos &&& 3 = 0 := by simp
  unfold readSlot
  rw [bits]
  rfl

namespace DecisionTree

/-! ## One call -/

/-- A tree can be created for every power of two. -/
theorem create_two_pow (k : Nat) :
    create (2 ^ k) = some ⟨List.replicate (2 * 2 * 2 ^ k / 8) 0⟩ := by
  unfold create
  rw [ceilLog2_two_pow, Nat.shiftLeft_eq, Nat.one_mul, if_pos rfl]

/-- Where no decision has been set the decision is `done`. -/
theorem get_replicate {size : Nat} {path : TaskPath} (inside : path.getPosition < 4 * size) :
    get ⟨List.replicate size 0⟩ path = some .done := by
  have byte : 2 * path.getPosition / 8 < size := by omega
  unfold get
  rw [if_neg]
  · simp only [List.getElem?_replicate, if_pos byte, Option.map_some, readSlot_zero]
  · rw [List.length_replicate]
    omega

/-- The bytes that a call of `set` leaves behind. -/
def written (encoded : List (BitVec 8)) (path : TaskPath) (decision : ScheduleDecision) :
    List (BitVec 8) :=
  let bytePos := 2 * path.getPosition / 8
  encoded.set bytePos
    (writeSlot (encoded.getD bytePos 0) (2 * path.getPosition % 8) decision)

/-- Inside of the tree a call of `set` only writes. -/
theorem set_eq_written {tree : DecisionTree} {path : TaskPath} (inTree : tree.InTree path)
    (decision : ScheduleDecision) :
    tree.set path decision = some ⟨written tree.encoded path decision⟩ := by
  have inside : path.getPosition / 4 < tree.encoded.length := by
    unfold InTree at inTree
    omega
  exact if_pos inside

/-- Writing keeps the number of bytes. -/
@[simp] theorem length_written (encoded : List (BitVec 8)) (path : TaskPath)
    (decision : ScheduleDecision) : (written encoded path decision).length = encoded.length :=
  List.length_set

/-- Writes for different paths can be swapped. -/
theorem written_comm (encoded : List (BitVec 8)) {path other : TaskPath} (different : path ≠ other)
    (decision decision' : ScheduleDecision) :
    written (written encoded path decision) other decision' =
      written (written encoded other decision') path decision := by
  have apart : path.getPosition ≠ other.getPosition := fun same =>
    different (TaskPath.getPosition_injective same)
  unfold written
  by_cases shared : 2 * path.getPosition / 8 = 2 * other.getPosition / 8
  · -- one byte, different slots
    simp only [shared, List.set_set]
    by_cases inside : 2 * other.getPosition / 8 < encoded.length
    · simp only [List.getD_eq_getElem?_getD, List.getElem?_set_self inside, Option.getD_some]
      rw [writeSlot_comm _ (by omega) (by omega) (by omega)]
    · simp only [List.set_eq_of_length_le (Nat.not_lt.mp inside)]
  · -- different bytes
    have shared' : ¬ 2 * other.getPosition / 8 = 2 * path.getPosition / 8 := fun same =>
      shared same.symm
    simp only [List.getD_eq_getElem?_getD, List.getElem?_set_ne shared,
      List.getElem?_set_ne shared']
    rw [List.set_comm _ _ shared]

/-- Sets on different paths commute. -/
theorem set_comm {tree : DecisionTree} {path other : TaskPath} (inTree : tree.InTree path)
    (inTree' : tree.InTree other) (different : path ≠ other)
    (decision decision' : ScheduleDecision) :
    (tree.set path decision).bind (·.set other decision') =
      (tree.set other decision').bind (·.set path decision) := by
  have first : InTree ⟨written tree.encoded path decision⟩ other :=
    inTree'.of_length (length_written _ _ _)
  have second : InTree ⟨written tree.encoded other decision'⟩ path :=
    inTree.of_length (length_written _ _ _)
  rw [set_eq_written inTree, set_eq_written inTree', Option.bind_some, Option.bind_some,
    set_eq_written first, set_eq_written second, written_comm _ different]

/-! ## Sequences of calls -/

/-- A call of `set`. -/
abbrev SetCall := TaskPath × ScheduleDecision

/-- The calls of `set`, one after the other. -/
def setAll (tree : DecisionTree) (calls : List SetCall) : Option DecisionTree :=
  calls.foldlM (fun tree call => tree.set call.1 call.2) tree

/-- What a tree means: the decision of the last call for a path, `done` without one. -/
def decisionMap (calls : List SetCall) : TaskPath → ScheduleDecision :=
  calls.foldl (fun decisions call => Function.update decisions call.1 call.2) fun _ => .done

/-- One more call updates the map. -/
theorem decisionMap_concat (calls : List SetCall) (call : SetCall) :
    decisionMap (calls ++ [call]) = Function.update (decisionMap calls) call.1 call.2 := by
  unfold decisionMap
  rw [List.foldl_append]
  rfl

/-- Calls for other paths do not change the decision. -/
theorem decisionMap_append_of_ne (before : List SetCall) {after : List SetCall} {path : TaskPath}
    (apart : ∀ call ∈ after, call.1 ≠ path) :
    decisionMap (before ++ after) path = decisionMap before path := by
  induction after using List.reverseRecOn with
  | nil => rw [List.append_nil]
  | append_singleton after call ih =>
    have other : call.1 ≠ path := apart call (by simp)
    rw [← List.append_assoc, decisionMap_concat, Function.update_of_ne other.symm]
    exact ih fun earlier mem => apart earlier (List.mem_append_left _ mem)

/-- A path that no call names has no decision. -/
theorem decisionMap_of_ne {calls : List SetCall} {path : TaskPath}
    (apart : ∀ call ∈ calls, call.1 ≠ path) : decisionMap calls path = .done :=
  decisionMap_append_of_ne [] apart

/-- The last call for a path gives its decision. -/
theorem decisionMap_last (before : List SetCall) (path : TaskPath) (decision : ScheduleDecision)
    {after : List SetCall} (apart : ∀ call ∈ after, call.1 ≠ path) :
    decisionMap (before ++ (path, decision) :: after) path = decision := by
  rw [List.append_cons, decisionMap_append_of_ne _ apart, decisionMap_concat,
    Function.update_self]

/-- A tree stores a map: inside of the tree every path reads its decision. -/
def Stores (tree : DecisionTree) (decisions : TaskPath → ScheduleDecision) : Prop :=
  ∀ path, tree.InTree path → tree.get path = some (decisions path)

/-- A call of `set` updates the map that the tree stores. -/
theorem Stores.set {tree : DecisionTree} {decisions : TaskPath → ScheduleDecision}
    (stores : tree.Stores decisions) {path : TaskPath} (inTree : tree.InTree path)
    (decision : ScheduleDecision) :
    ∃ tree', tree.set path decision = some tree' ∧
      tree'.encoded.length = tree.encoded.length ∧
      tree'.Stores (Function.update decisions path decision) := by
  obtain ⟨tree', set, length, same, others⟩ := set_eq inTree decision
  refine ⟨tree', set, length, fun other inside => ?_⟩
  by_cases here : other = path
  · rw [here, same, Function.update_self]
  · rw [others other here, Function.update_of_ne here]
    exact stores other (inside.of_length length.symm)

/-- Calls inside of a new tree succeed, and the tree stores the map that they describe. -/
theorem setAll_stores {size : Nat} {calls : List SetCall}
    (inside : ∀ call ∈ calls, call.1.getPosition < 4 * size) :
    ∃ tree, setAll ⟨List.replicate size 0⟩ calls = some tree ∧ tree.encoded.length = size ∧
      tree.Stores (decisionMap calls) := by
  induction calls using List.reverseRecOn with
  | nil =>
    refine ⟨_, rfl, List.length_replicate, fun path inTree => get_replicate ?_⟩
    unfold InTree at inTree
    rwa [List.length_replicate] at inTree
  | append_singleton calls call ih =>
    obtain ⟨tree, sets, length, stores⟩ :=
      ih fun earlier mem => inside earlier (List.mem_append_left _ mem)
    have inTree : tree.InTree call.1 := by
      unfold InTree
      rw [length]
      exact inside call (by simp)
    obtain ⟨tree', set, length', stores'⟩ := stores.set inTree call.2
    refine ⟨tree', ?_, length'.trans length, ?_⟩
    · unfold setAll at sets ⊢
      rw [List.foldlM_append, sets]
      show List.foldlM (fun tree call => DecisionTree.set tree call.1 call.2) tree [call] = _
      rw [List.foldlM_cons, set]
      rfl
    · rw [decisionMap_concat]
      exact stores'

/-- A decision tree for a power of two behaves as a map. After any calls of `set` inside of the
tree, a path reads the decision of the last call for it, and `done` when there is none; sets on
different paths commute and leave the decisions of all other paths alone. -/
theorem setAll_map {k : Nat} {tree : DecisionTree} (created : create (2 ^ k) = some tree)
    {calls : List SetCall} (inTree : ∀ call ∈ calls, tree.InTree call.1) :
    ∃ tree', tree.setAll calls = some tree' ∧
      (∀ before path decision after, calls = before ++ (path, decision) :: after →
        (∀ call ∈ after, call.1 ≠ path) → tree'.get path = some decision) ∧
      (∀ path, tree.InTree path → (∀ call ∈ calls, call.1 ≠ path) →
        tree'.get path = some .done) ∧
      (∀ path other, tree.InTree path → tree.InTree other → path ≠ other →
        ∀ decision decision', (tree'.set path decision).bind (·.set other decision') =
          (tree'.set other decision').bind (·.set path decision)) ∧
      (∀ path, tree.InTree path → ∀ decision, ∃ tree'', tree'.set path decision = some tree'' ∧
        ∀ other, other ≠ path → tree''.get other = tree'.get other) := by
  rw [create_two_pow, Option.some.injEq] at created
  subst created
  have size : (List.replicate (2 * 2 * 2 ^ k / 8) (0 : BitVec 8)).length = 2 * 2 * 2 ^ k / 8 :=
    List.length_replicate
  have inside : ∀ call ∈ calls, call.1.getPosition < 4 * (2 * 2 * 2 ^ k / 8) := by
    intro call mem
    have inside := inTree call mem
    unfold InTree at inside
    rwa [size] at inside
  obtain ⟨tree', sets, length, stores⟩ := setAll_stores inside
  have stays {path : TaskPath} (inside : InTree ⟨List.replicate (2 * 2 * 2 ^ k / 8) 0⟩ path) :
      tree'.InTree path := inside.of_length (length.trans size.symm)
  refine ⟨tree', sets, ?_, ?_, ?_, ?_⟩
  · rintro before path decision after rfl apart
    rw [stores path (stays (inTree (path, decision) (by simp))), decisionMap_last _ _ _ apart]
  · intro path inside apart
    rw [stores path (stays inside), decisionMap_of_ne apart]
  · intro path other inside inside' different decision decision'
    exact set_comm (stays inside) (stays inside') different decision decision'
  · intro path inside decision
    obtain ⟨tree'', set, -, -, others⟩ := set_eq (stays inside) decision
    exact ⟨tree'', set, others⟩

/-- Three calls on a tree for eight nodes, the last of which overwrites the first. -/
theorem setAll_map_eight : ∃ tree tree', create (2 ^ 3) = some tree ∧
    tree.setAll [([], .stay), ([.right], .left), ([], .right)] = some tree' ∧
    tree'.get [] = some .right := by
  have inTree : ∀ call ∈ [(([], .stay) : SetCall), ([.right], .left), ([], .right)],
      InTree ⟨List.replicate 4 0⟩ call.1 := by
    unfold InTree
    decide
  obtain ⟨tree', sets, last, -⟩ := setAll_map (create_two_pow 3) inTree
  exact ⟨_, tree', create_two_pow 3, sets,
    last [([], .stay), ([.right], .left)] [] .right [] rfl (by simp)⟩

end DecisionTree

end AllScale
