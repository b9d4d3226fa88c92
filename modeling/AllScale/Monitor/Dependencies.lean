import AllScale.Lib.KeyedList
import AllScale.Monitor.ProfileQueue

/-!
# The gathered dependencies

Every locality records for each parent the children that have finished there. When the monitor
stops, the locality with rank zero gathers the graphs of all localities and inserts one after the
other into a graph of its own. An insertion into a map leaves a key alone that is there already, so
of the children of a parent only those are kept that the first locality with this parent has
recorded.
-/

namespace AllScale

open Function (update)
open KeyedList (absorb)

/-- `dependency_graph` — the parents with their children, in the order in which the map is
iterated over. -/
structure DependencyGraph where
  /-- The parents with their children. -/
  entries : List (String × List String)
  /-- Every parent has one entry. -/
  distinct : (entries.map Prod.fst).Nodup

namespace DependencyGraph

/-- A graph without work items. -/
def empty : DependencyGraph := ⟨[], .nil⟩

/-- `find`, with the value of the entry. -/
def find? (self : DependencyGraph) (parent : String) : Option (List String) :=
  (self.entries.find? fun entry => entry.1 = parent).map Prod.snd

/-- What `monitor::process_profiles` does with the graph: the child is appended to the children of
its parent, which is inserted when it has none. -/
def record (self : DependencyGraph) (parentId id : String) : DependencyGraph where
  entries := absorb Prod.fst (fun old new => (old.1, old.2 ++ new.2)) (parentId, [id]) self.entries
  distinct := KeyedList.nodup_absorb (by intro _ _; rfl) _ self.distinct

/-- `insert` for an entry: nothing is changed when its key is there. -/
def insert (self : DependencyGraph) (entry : String × List String) : DependencyGraph where
  entries := absorb Prod.fst (fun old _ => old) entry self.entries
  distinct := KeyedList.nodup_absorb (by intro _ _; rfl) _ self.distinct

/-- `insert` for all entries of a graph. -/
def insertRange (self other : DependencyGraph) : DependencyGraph :=
  other.entries.foldl insert self

/-- The loop over the graphs of all localities in `monitor::stop`. -/
def gather (rcvBuffer : List DependencyGraph) : DependencyGraph := rcvBuffer.foldl insertRange empty

/-- A child is recorded for a parent. -/
def Recorded (self : DependencyGraph) (parent child : String) : Prop :=
  ∃ children, self.find? parent = some children ∧ child ∈ children

/-! ## Recording -/

/-- Recording appends a child to the children of its parent. -/
theorem find?_record (self : DependencyGraph) (parentId id : String) :
    (self.record parentId id).find? = update self.find? parentId
      (match self.find? parentId with
      | none => some [id]
      | some children => some (children ++ [id])) := by
  funext parent
  unfold find? record
  rw [KeyedList.find?_absorb]
  · by_cases here : parentId = parent
    · subst parent
      rw [if_pos rfl, Function.update_self]
      cases self.entries.find? fun entry => entry.1 = parentId <;> rfl
    · rw [if_neg here, Function.update_of_ne (Ne.symm here)]
  · exact fun _ _ => rfl

/-- The graph of a locality holds what its thread has recorded. -/
theorem find?_foldl_record {T : Type} (processed : List (Profile T)) (self : DependencyGraph)
    (records : Records T) (same : self.find? = records.wiDependencies) :
    (processed.foldl (fun graph profile => graph.record profile.parentWid profile.wid) self).find? =
      (processed.foldl Records.add records).wiDependencies := by
  induction processed generalizing self records with
  | nil => exact same
  | cons profile processed ih =>
    rw [List.foldl_cons, List.foldl_cons]
    apply ih
    rw [find?_record, same]
    rfl

/-! ## Gathering -/

/-- An insertion finds the new entry only under a key that was not there. -/
theorem find?_insert (self : DependencyGraph) (entry : String × List String) (parent : String) :
    (self.insert entry).find? parent =
      (self.find? parent).or (if entry.1 = parent then some entry.2 else none) := by
  unfold find? insert
  rw [KeyedList.find?_absorb fun _ _ => rfl]
  by_cases here : entry.1 = parent
  · rw [if_pos here, if_pos here]
    cases self.entries.find? fun entry => entry.1 = parent <;> rfl
  · rw [if_neg here, if_neg here, Option.or_none]

/-- Inserting a graph adds the parents that were not there. -/
theorem find?_insertRange (self other : DependencyGraph) (parent : String) :
    (self.insertRange other).find? parent = (self.find? parent).or (other.find? parent) := by
  obtain ⟨entries, distinct⟩ := other
  unfold insertRange
  induction entries generalizing self with
  | nil => exact (Option.or_none).symm
  | cons entry entries ih =>
    rw [List.foldl_cons, ih _ (List.nodup_cons.mp distinct).2, find?_insert, Option.or_assoc]
    congr 1
    unfold find?
    rw [List.find?_cons]
    by_cases here : entry.1 = parent
    · simp [here]
    · simp [here]

/-- Of the graphs that are inserted the first one with a parent decides. -/
theorem find?_foldl_insertRange (self : DependencyGraph) (rcvBuffer : List DependencyGraph)
    (parent : String) : (rcvBuffer.foldl insertRange self).find? parent =
      (self.find? parent).or (rcvBuffer.findSome? fun graph => graph.find? parent) := by
  induction rcvBuffer generalizing self with
  | nil => exact (Option.or_none).symm
  | cons graph rcvBuffer ih =>
    rw [List.foldl_cons, ih, find?_insertRange, Option.or_assoc, List.findSome?_cons]
    congr 1
    cases graph.find? parent <;> rfl

/-- What is gathered for a parent is what the first locality with this parent has recorded. -/
theorem find?_gather (rcvBuffer : List DependencyGraph) (parent : String) :
    (gather rcvBuffer).find? parent = rcvBuffer.findSome? fun graph => graph.find? parent :=
  find?_foldl_insertRange empty rcvBuffer parent

/-- In whatever order the graphs are gathered, a child is recorded for a parent exactly if it is on
some locality. -/
def GathersUnion (rcvBuffer : List DependencyGraph) : Prop :=
  ∀ order, order.Perm rcvBuffer → ∀ parent child,
    (gather order).Recorded parent child ↔ ∃ graph ∈ rcvBuffer, graph.Recorded parent child

/-- Localities with the same parent have recorded the same children for it. -/
def Agree (rcvBuffer : List DependencyGraph) : Prop :=
  ∀ first ∈ rcvBuffer, ∀ second ∈ rcvBuffer, ∀ parent children children',
    first.find? parent = some children → second.find? parent = some children' →
      ∀ child, child ∈ children → child ∈ children'

/-- The gathered graph is the union in every order exactly if localities with the same parent have
recorded the same children for it. -/
theorem gathersUnion_iff (rcvBuffer : List DependencyGraph) :
    GathersUnion rcvBuffer ↔ Agree rcvBuffer := by
  constructor
  · intro union first found second found' parent children children' here there child recorded
    -- the graphs are gathered in an order in which the second one comes first
    obtain ⟨before, after, split⟩ := List.append_of_mem found'
    have order : (second :: (before ++ after)).Perm rcvBuffer := by
      rw [split]
      exact List.perm_middle.symm
    have gathered : (gather (second :: (before ++ after))).find? parent = some children' := by
      rw [find?_gather, List.findSome?_cons, there]
    have all := (union _ order parent child).mpr ⟨first, found, children, here, recorded⟩
    obtain ⟨children'', same, member⟩ := all
    rw [gathered, Option.some.injEq] at same
    rwa [same]
  · intro agree order perm parent child
    constructor
    · rintro ⟨children, gathered, recorded⟩
      rw [find?_gather] at gathered
      obtain ⟨graph, found, here⟩ := List.exists_of_findSome?_eq_some gathered
      exact ⟨graph, perm.subset found, children, here, recorded⟩
    · rintro ⟨graph, found, children, here, recorded⟩
      have present : (gather order).find? parent ≠ none := by
        rw [find?_gather]
        intro missing
        rw [List.findSome?_eq_none_iff.mp missing graph (perm.symm.subset found)] at here
        cases here
      obtain ⟨children', gathered⟩ := Option.ne_none_iff_exists'.mp present
      obtain ⟨other, found', there⟩ :=
        List.exists_of_findSome?_eq_some ((find?_gather _ _).symm.trans gathered)
      exact ⟨children', gathered,
        agree graph found other (perm.subset found') parent children children' here there child
          recorded⟩

/-- The children of a split finish on different localities: the second one is lost. -/
theorem not_gathersUnion : ¬ GathersUnion
    [empty.record "T-0.1" "T-0.1.0", empty.record "T-0.1" "T-0.1.1"] := by
  intro union
  have recorded : (empty.record "T-0.1" "T-0.1.1").Recorded "T-0.1" "T-0.1.1" :=
    ⟨["T-0.1.1"], by decide, by decide⟩
  obtain ⟨children, gathered, member⟩ := (union _ (.refl _) "T-0.1" "T-0.1.1").mpr
    ⟨_, List.mem_cons_of_mem _ List.mem_cons_self, recorded⟩
  have first : (gather [empty.record "T-0.1" "T-0.1.0", empty.record "T-0.1" "T-0.1.1"]).find?
      "T-0.1" = some ["T-0.1.0"] := by decide
  rw [first, Option.some.injEq] at gathered
  rw [← gathered] at member
  exact absurd member (by decide)

end DependencyGraph

end AllScale
