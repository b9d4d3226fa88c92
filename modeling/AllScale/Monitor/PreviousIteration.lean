import AllScale.Tasks.TaskId

/-!
# Translation to the previous iteration

The monitor remembers the roots of all iterations by their printed ids. The id of a work item is
translated to the previous iteration by writing the printed id of the previous root over its first
characters. A printed id ends with its path in parentheses, and a longer path is not printed behind
them but before them, so below the root the result is not the id of any work item.
-/

namespace AllScale

open TokenTree

namespace TaskId

variable {capacity : Nat}

/-- The child on a side. -/
def child (self : TaskId capacity) : Side → TaskId capacity
  | .left => self.leftChild
  | .right => self.rightChild

/-- The work item that is reached by a sequence of turns. -/
def descend (self : TaskId capacity) (turns : List Side) : TaskId capacity :=
  turns.foldl child self

variable (printPath : PackedPath capacity → String) (printLength : Nat → String)

/-- `operator<<` for ids, with the one for paths. -/
def print (self : TaskId capacity) : String :=
  "T-" ++ Nat.repr self.localityId ++ "." ++ Nat.repr self.id ++ printPath self.path ++ "(" ++
    Nat.repr self.path.bits.toNat ++ "," ++ Nat.repr self.path.length ++ ")"

/-- `to_string`, with the operator that prints the length of a path. -/
def toString (self : TaskId capacity) : String :=
  self.print printPath ++ "(" ++ Nat.repr self.path.bits.toNat ++ "," ++
    printLength self.path.length ++ ")"

/-- The operator for paths prints a path as that of the parent, followed by the last turn. -/
def PrintsTurns : Prop :=
  ∀ (path : PackedPath capacity) (s : Side), path.length < capacity → ∃ turn digits, turn ≠ '(' ∧
    (printPath (path.getChildPath s)).toList = (printPath path).toList ++ turn :: digits

/-- The latest turns of a path, every one behind a point. -/
def printTurns : Nat → Nat → String
  | 0, _ => ""
  | length + 1, bits => printTurns length (bits / 2) ++ "." ++ Nat.repr (bits % 2)

/-- Turns behind points are printed one after the other. -/
theorem printsTurns_printTurns :
    PrintsTurns fun path : PackedPath capacity => printTurns path.length path.bits.toNat := by
  intro path s short
  have single := PackedPath.bit_le s
  have earlier : (path.getChildPath s).bits.toNat / 2 = path.bits.toNat := by
    rw [PackedPath.toNat_bits_child short]
    omega
  refine ⟨'.', (Nat.repr ((path.getChildPath s).bits.toNat % 2)).toList, by decide, ?_⟩
  show (printTurns (path.length + 1) (path.getChildPath s).bits.toNat).toList = _
  rw [printTurns, earlier, String.toList_append, String.toList_append, List.append_assoc]
  rfl

/-- The printed id of a work item with turns behind points and lengths as numbers. -/
def text (self : TaskId capacity) : String :=
  self.toString (fun path => printTurns path.length path.bits.toNat) Nat.repr

variable {printPath}

/-- Below an item the localities and the counters are those of the item, and the turns are printed
behind its path. -/
theorem descend_cons (prints : PrintsTurns printPath) {self : TaskId capacity} {s : Side}
    {turns : List Side} (fits : self.path.length + (turns.length + 1) ≤ capacity) :
    (self.descend (s :: turns)).localityId = self.localityId ∧
      (self.descend (s :: turns)).id = self.id ∧ ∃ turn digits, turn ≠ '(' ∧
        (printPath (self.descend (s :: turns)).path).toList =
          (printPath self.path).toList ++ turn :: digits := by
  induction turns generalizing self s with
  | nil =>
    have room : self.path.length < capacity := by
      simp only [List.length_nil] at fits
      omega
    have printed := prints self.path s room
    cases s with
    | left => exact ⟨rfl, rfl, printed⟩
    | right => exact ⟨rfl, rfl, printed⟩
  | cons t turns ih =>
    have room : self.path.length < capacity := by omega
    have deeper : (self.child s).path.length + (turns.length + 1) ≤ capacity := by
      have longer : (self.child s).path.length = self.path.length + 1 := by cases s <;> rfl
      rw [List.length_cons] at fits
      omega
    obtain ⟨locality, id, next, rest, -, below⟩ := ih deeper
    obtain ⟨turn, digits, other, child⟩ := prints self.path s room
    have same : (self.child s).localityId = self.localityId ∧ (self.child s).id = self.id ∧
        (self.child s).path = self.path.getChildPath s := by
      cases s <;> exact ⟨rfl, rfl, rfl⟩
    refine ⟨locality.trans same.1, id.trans same.2.1, turn, digits ++ next :: rest, other, ?_⟩
    calc (printPath (self.descend (s :: t :: turns)).path).toList
        = (printPath (self.child s).path).toList ++ next :: rest := below
      _ = (printPath self.path).toList ++ turn :: digits ++ next :: rest := by
          rw [same.2.2, child]
      _ = (printPath self.path).toList ++ turn :: (digits ++ next :: rest) := by
          rw [List.append_assoc, List.cons_append]

/-- What is printed of an id before its path. -/
def label (self : TaskId capacity) : List Char :=
  ("T-" ++ Nat.repr self.localityId ++ "." ++ Nat.repr self.id).toList

variable (printPath) in
/-- An id is printed as its label, its path and a parenthesis. -/
theorem toList_toString (self : TaskId capacity) : ∃ suffix,
    (self.toString printPath printLength).toList =
      self.label ++ ((printPath self.path).toList ++ '(' :: suffix) := by
  refine ⟨(Nat.repr self.path.bits.toNat ++ "," ++ Nat.repr self.path.length ++ ")" ++ "(" ++
    Nat.repr self.path.bits.toNat ++ "," ++ printLength self.path.length ++ ")").toList, ?_⟩
  unfold toString print label
  simp only [String.toList_append, List.append_assoc]
  rfl

/-- The printed id of an item is no beginning of the printed ids below. -/
theorem toString_not_prefix (prints : PrintsTurns printPath) {self : TaskId capacity} {s : Side}
    {turns : List Side} (fits : self.path.length + (turns.length + 1) ≤ capacity) :
    ¬ (self.toString printPath printLength).toList <+:
      ((self.descend (s :: turns)).toString printPath printLength).toList := by
  obtain ⟨locality, id, turn, digits, other, below⟩ := descend_cons prints (s := s) fits
  obtain ⟨suffix, printed⟩ := toList_toString printPath printLength self
  obtain ⟨suffix', printed'⟩ :=
    toList_toString printPath printLength (self.descend (s :: turns))
  have same : (self.descend (s :: turns)).label = self.label := by
    unfold label
    rw [locality, id]
  rw [printed, printed', same, below, List.append_assoc, List.prefix_append_right_inj,
    List.prefix_append_right_inj, List.cons_append, List.cons_prefix_cons]
  exact fun begins => other begins.1.symm

end TaskId

/-- `historical_data`, without times. -/
structure HistoricalData where
  /-- `current_iteration`. -/
  currentIteration : Int
  /-- `iteration_roots`. -/
  iterationRoots : List String

namespace HistoricalData

/-- The constructor. -/
def create : HistoricalData := ⟨-1, []⟩

/-- `historical_data::add_tree_root`. -/
def addTreeRoot (self : HistoricalData) (nodeLabel : String) : HistoricalData :=
  { self with iterationRoots := self.iterationRoots ++ [nodeLabel] }

/-- `historical_data::new_iteration`. -/
def newIteration (self : HistoricalData) (nodeLabel : String) : HistoricalData where
  currentIteration := self.currentIteration + 1
  iterationRoots := self.iterationRoots ++ [nodeLabel]

/-- `monitor::w_app_iteration` for the printed id of a root. -/
def wAppIteration (self : HistoricalData) (root : String) : HistoricalData :=
  if self.currentIteration < 0 then
    let self := self.addTreeRoot root
    { self with currentIteration := self.currentIteration + 1 }
  else self.newIteration root

/-- `std::string::replace` at the front: a string is written for as many characters, or for all that
there are. -/
def replaceFront (match_ : String) (size : Nat) (replacement : String) : String :=
  String.ofList (replacement.toList ++ match_.toList.drop size)

/-- `monitor::match_previous_treeture`; there is no result for a root that is not recorded. -/
def matchPreviousTreeture (self : HistoricalData) (wId : String) : Option String :=
  let lastIteration := self.currentIteration - 1
  if lastIteration ≥ 0 then do
    let previousRoot ← self.iterationRoots[lastIteration.toNat]?
    some (replaceFront wId previousRoot.length previousRoot)
  else some wId

/-- The history of a sequence of iterations, by the printed ids of their roots. -/
def ofRoots (roots : List String) : HistoricalData := roots.foldl wAppIteration create

/-- Every iteration is counted and its root recorded. -/
theorem ofRoots_eq (roots : List String) :
    (ofRoots roots).currentIteration = roots.length - 1 ∧
      (ofRoots roots).iterationRoots = roots := by
  induction roots using List.reverseRecOn with
  | nil => exact ⟨rfl, rfl⟩
  | append_singleton roots root ih =>
    obtain ⟨count, recorded⟩ := ih
    have step : ofRoots (roots ++ [root]) = (ofRoots roots).wAppIteration root := by
      unfold ofRoots
      rw [List.foldl_append]
      rfl
    rw [step, List.length_append, List.length_singleton]
    unfold wAppIteration
    split
    · refine ⟨?_, congrArg (· ++ [root]) recorded⟩
      show (ofRoots roots).currentIteration + 1 = _
      omega
    · refine ⟨?_, congrArg (· ++ [root]) recorded⟩
      show (ofRoots roots).currentIteration + 1 = _
      omega

/-- In the first iteration ids are left unchanged. -/
theorem matchPreviousTreeture_first (root wId : String) :
    (ofRoots [root]).matchPreviousTreeture wId = some wId := rfl

/-- Later the previous root is written over the first characters. -/
theorem matchPreviousTreeture_later (earlier : List String) (previous current wId : String) :
    (ofRoots (earlier ++ [previous, current])).matchPreviousTreeture wId =
      some (replaceFront wId previous.length previous) := by
  obtain ⟨count, recorded⟩ := ofRoots_eq (earlier ++ [previous, current])
  have last : (ofRoots (earlier ++ [previous, current])).currentIteration - 1 = earlier.length := by
    rw [count, List.length_append, List.length_cons, List.length_singleton]
    omega
  have here : (earlier ++ [previous, current])[earlier.length]? = some previous := by simp
  unfold matchPreviousTreeture
  simp only [last, recorded, Int.toNat_natCast, here]
  rfl

/-- What is written over stands at the front. -/
theorem prefix_replaceFront (match_ : String) (size : Nat) (replacement : String) :
    replacement.toList <+: (replaceFront match_ size replacement).toList := by
  unfold replaceFront
  rw [String.toList_ofList]
  exact List.prefix_append _ _

/-- The whole string is replaced if no more characters than given stand in it. -/
theorem replaceFront_eq_iff {match_ replacement : String} :
    replaceFront match_ replacement.length replacement = replacement ↔
      match_.length ≤ replacement.length := by
  unfold replaceFront
  rw [← String.toList_inj, String.toList_ofList, List.append_right_eq_self, List.drop_eq_nil_iff,
    String.length_toList]

/-- Below the root of an iteration no id is translated to that of the item below the previous
root. -/
theorem matchPreviousTreeture_below {capacity : Nat} {printPath : PackedPath capacity → String}
    (printLength : Nat → String) (prints : TaskId.PrintsTurns printPath) (earlier : List String)
    {previous : TaskId capacity} (s : Side) (turns : List Side)
    (fits : previous.path.length + (turns.length + 1) ≤ capacity) (root wId : String) :
    (ofRoots (earlier ++ [previous.toString printPath printLength, root])).matchPreviousTreeture
        wId ≠ some ((previous.descend (s :: turns)).toString printPath printLength) := by
  intro translated
  rw [matchPreviousTreeture_later, Option.some_inj] at translated
  apply TaskId.toString_not_prefix printLength prints (s := s) fits
  rw [← translated]
  exact prefix_replaceFront wId _ _

/-- Ids of the first iteration are left unchanged. Later, an id is translated to that of the work
item with the same path if and only if it is that of the root, and not printed with more characters
than the root of the previous iteration. -/
theorem matchPreviousTreeture_iff {capacity : Nat} {printPath : PackedPath capacity → String}
    (printLength : Nat → String) (prints : TaskId.PrintsTurns printPath) :
    (∀ root wId : String, (ofRoots [root]).matchPreviousTreeture wId = some wId) ∧
      ∀ (earlier : List (TaskId capacity)) (previous current : TaskId capacity) (turns : List Side),
        previous.path.length + turns.length ≤ capacity →
        ((ofRoots ((earlier ++ [previous, current]).map
            (TaskId.toString printPath printLength))).matchPreviousTreeture
            ((current.descend turns).toString printPath printLength) =
              some ((previous.descend turns).toString printPath printLength) ↔
          turns = [] ∧ (current.toString printPath printLength).length ≤
            (previous.toString printPath printLength).length) := by
  refine ⟨matchPreviousTreeture_first, fun earlier previous current turns fits => ?_⟩
  rw [List.map_append, List.map_cons, List.map_singleton]
  cases turns with
  | nil =>
    rw [matchPreviousTreeture_later, Option.some_inj]
    exact replaceFront_eq_iff.trans (and_iff_right rfl).symm
  | cons s turns =>
    refine iff_of_false (matchPreviousTreeture_below printLength prints _ s turns fits _ _) ?_
    exact fun root => List.cons_ne_nil s turns root.1

/-- Behind five iterations the root of the sixth is translated to that of the fifth, where both
counters have one digit. -/
theorem matchPreviousTreeture_iff_six :
    (ofRoots (([1, 2, 3, 4, 5, 6].map fun id => (TaskId.createRoot 0 id : TaskId 64 × Nat).1).map
      TaskId.text)).matchPreviousTreeture (TaskId.createRoot 0 6 : TaskId 64 × Nat).1.text =
      some (TaskId.createRoot 0 5 : TaskId 64 × Nat).1.text :=
  ((matchPreviousTreeture_iff Nat.repr TaskId.printsTurns_printTurns).2
    ([1, 2, 3, 4].map fun id => (TaskId.createRoot 0 id).1) (TaskId.createRoot 0 5).1
    (TaskId.createRoot 0 6).1 [] (by decide)).2 ⟨rfl, by decide⟩

/-- The left child of the root in the second iteration is not translated to that of the root in the
first. -/
theorem not_matchPreviousTreeture :
    (ofRoots [(TaskId.createRoot 0 1 : TaskId 64 × Nat).1.text,
        (TaskId.createRoot 0 2 : TaskId 64 × Nat).1.text]).matchPreviousTreeture
        (TaskId.createRoot 0 2 : TaskId 64 × Nat).1.leftChild.text ≠
      some (TaskId.createRoot 0 1 : TaskId 64 × Nat).1.leftChild.text :=
  matchPreviousTreeture_below Nat.repr TaskId.printsTurns_printTurns [] .left [] (by decide) _ _

end HistoricalData

end AllScale
