import Mathlib.Logic.Relation
import Mathlib.Order.WellFoundedSet
import AllScale.Lib.Fuel
import AllScale.Monitor.Dependencies

/-!
# The printed task graph

The gathered graph is written as the nodes and the edges of a drawing, in two recursions from a
root. Both build the identifier of a work item from its id, its name and its times. For a child the
recursion over the edges takes the name of its parent, so the two agree only where names do not
change from a work item to its children.
-/

namespace AllScale

open Fuel Relation

/-- `work_item_stats` — what is printed of it, for a type of times. -/
structure WorkItemStats (T : Type) where
  /-- `name_`. -/
  name : String
  /-- `exclusive_time_`. -/
  exclusiveTime : T
  /-- `inclusive_time_`. -/
  inclusiveTime : T

/-- `profile_map`. -/
abbrev ProfileMap (T : Type) := String → Option (WorkItemStats T)

/-- A statement of the drawing. -/
inductive Statement where
  /-- A node with its identifier and its colour. -/
  | node (identifier : String) (color : Nat)
  /-- An edge between two identifiers. -/
  | edge (source target : String)
  deriving DecidableEq

namespace DependencyGraph

/-- No work item is below itself. -/
def Acyclic (self : DependencyGraph) : Prop := ∀ node, ¬ TransGen self.Recorded node node

/-- The children that are recorded for a parent are those of its entry. -/
theorem recorded_iff (self : DependencyGraph) (parent child : String) :
    self.Recorded parent child ↔ child ∈ (self.find? parent).getD [] := by
  unfold Recorded
  cases self.find? parent <;> simp

/-- The recursion to the children ends: there are finitely many parents. -/
theorem Acyclic.wellFounded {self : DependencyGraph} (acyclic : self.Acyclic) :
    WellFounded fun child parent => self.Recorded parent child := by
  let below : String → String → Prop := fun child parent => TransGen self.Recorded parent child
  let parents : Set String := {parent | parent ∈ self.entries.map Prod.fst}
  have strict : IsStrictOrder String below :=
    { irrefl := acyclic, trans := fun _ _ _ lower upper => upper.trans lower }
  have finite : parents.Finite := List.finite_toSet _
  have wellFoundedOn : parents.WellFoundedOn below := finite.wellFoundedOn
  have leaf (node : String) (childless : node ∉ parents) :
      Acc (fun child parent => self.Recorded parent child) node := by
    refine ⟨_, fun child recorded => ?_⟩
    obtain ⟨children, found, -⟩ := recorded
    obtain ⟨entry, first, -⟩ := Option.map_eq_some_iff.mp found
    have same := List.find?_some first
    rw [decide_eq_true_eq] at same
    exact absurd (same ▸ List.mem_map_of_mem (List.mem_of_find?_eq_some first)) childless
  refine ⟨fun node => ?_⟩
  by_cases parent : node ∈ parents
  · refine wellFoundedOn.induction parent fun node _ ih => ⟨_, fun child recorded => ?_⟩
    by_cases inner : child ∈ parents
    · exact ih child inner (.single recorded)
    · exact leaf child inner
  · exact leaf node parent

end DependencyGraph

section Printing

variable {T : Type}

/-- The times in the identifier of a work item, with the format of times. -/
def WorkItemStats.label (self : WorkItemStats T) (scientific : T → String) : String :=
  "\\n Texcl = " ++ scientific self.exclusiveTime ++ "\\n Tincl = " ++ scientific self.inclusiveTime

/-- `monitor::print_node`; `fuel` bounds the depth of the recursion. -/
def printNode (scientific : T → String) (intensityToRgb : T → T → Nat) (totalTreeTime : T)
    (globalStats : ProfileMap T) (g : DependencyGraph) : (fuel : Nat) → String →
      Option (List Statement)
  | 0, _ => none
  | fuel + 1, node =>
    match globalStats node with
    | none => some []
    | some profile => do
      let color := intensityToRgb profile.exclusiveTime totalTreeTime
      let identifier := node ++ " " ++ profile.name ++ profile.label scientific
      let below ← ((g.find? node).getD []).mapM
        (printNode scientific intensityToRgb totalTreeTime globalStats g fuel)
      some (.node identifier color :: below.flatten)

/-- `monitor::print_edges`. The second label has the name of the parent. -/
def printEdges (scientific : T → String) (globalStats : ProfileMap T) (g : DependencyGraph) :
    (fuel : Nat) → String → Option (List Statement)
  | 0, _ => none
  | fuel + 1, node =>
    match globalStats node with
    | none => some []
    | some it => do
      let label1 := node ++ " " ++ it.name ++ it.label scientific
      let below ← ((g.find? node).getD []).mapM fun child =>
        match globalStats child with
        | none => some []
        | some it2 => do
          let label2 := child ++ " " ++ it.name ++ it2.label scientific
          let edges ← printEdges scientific globalStats g fuel child
          some (.edge label1 label2 :: edges)
      some below.flatten

/-- `monitor::print_treeture`: the statements between its first and its last lines. -/
def printTreeture (scientific : T → String) (intensityToRgb : T → T → Nat) (totalTreeTime : T)
    (globalStats : ProfileMap T) (g : DependencyGraph) (fuel : Nat) (root : String) :
    Option (List Statement) := do
  let nodes ← printNode scientific intensityToRgb totalTreeTime globalStats g fuel root
  let edges ← printEdges scientific globalStats g fuel root
  some (nodes ++ edges)

/-! ## What is printed -/

/-- A child with statistics follows its parent. -/
def Follows (globalStats : ProfileMap T) (g : DependencyGraph) (parent child : String) : Prop :=
  g.Recorded parent child ∧ ∃ stats, globalStats child = some stats

/-- A work item with statistics is reached from the root through work items with statistics. -/
def Reached (globalStats : ProfileMap T) (g : DependencyGraph) (root node : String)
    (stats : WorkItemStats T) : Prop :=
  (∃ first, globalStats root = some first) ∧ ReflTransGen (Follows globalStats g) root node ∧
    globalStats node = some stats

/-- What holds of some work item that is reached holds of the root, or of some work item that is
reached from a child of it. -/
theorem exists_reached_iff {globalStats : ProfileMap T} {g : DependencyGraph} {root : String}
    {first : WorkItemStats T} (start : globalStats root = some first)
    {P : String → WorkItemStats T → Prop} :
    (∃ node stats, Reached globalStats g root node stats ∧ P node stats) ↔
      P root first ∨ ∃ child ∈ (g.find? root).getD [],
        ∃ node stats, Reached globalStats g child node stats ∧ P node stats := by
  constructor
  · rintro ⟨node, stats, ⟨-, path, here⟩, holds⟩
    rcases ReflTransGen.cases_head path with rfl | ⟨child, ⟨recorded, there⟩, path⟩
    · rw [start, Option.some.injEq] at here
      rw [← here] at holds
      exact .inl holds
    · exact .inr ⟨child, (g.recorded_iff root child).mp recorded, node, stats,
        ⟨there, path, here⟩, holds⟩
  · rintro (holds | ⟨child, found, node, stats, ⟨there, path, here⟩, holds⟩)
    · exact ⟨root, first, ⟨⟨first, start⟩, .refl, start⟩, holds⟩
    · have follows : Follows globalStats g root child :=
        ⟨(g.recorded_iff root child).mpr found, there⟩
      exact ⟨node, stats, ⟨⟨first, start⟩, .head follows path, here⟩, holds⟩

/-- Without statistics for the root nothing is reached. -/
theorem not_reached {globalStats : ProfileMap T} {g : DependencyGraph} {root node : String}
    {stats : WorkItemStats T} (missing : globalStats root = none) :
    ¬ Reached globalStats g root node stats := by
  rintro ⟨⟨first, start⟩, -⟩
  rw [missing] at start
  cases start

/-- For a root without statistics nothing has to be printed. -/
theorem mem_nil_iff_reached {globalStats : ProfileMap T} {g : DependencyGraph} {root : String}
    (missing : globalStats root = none) {P : String → WorkItemStats T → Statement → Prop}
    (statement : Statement) : statement ∈ ([] : List Statement) ↔
      ∃ node stats, Reached globalStats g root node stats ∧ P node stats statement := by
  refine iff_of_false List.not_mem_nil ?_
  rintro ⟨node, stats, reached, -⟩
  exact not_reached missing reached

variable (scientific : T → String) (intensityToRgb : T → T → Nat) (totalTreeTime : T)
  (globalStats : ProfileMap T)

/-- The identifier of a work item. -/
def identifier (node : String) (stats : WorkItemStats T) : String :=
  node ++ " " ++ stats.name ++ stats.label scientific

/-- The identifier that an edge has for a child. -/
def childIdentifier (child : String) (parentStats stats : WorkItemStats T) : String :=
  child ++ " " ++ parentStats.name ++ stats.label scientific

/-- A statement is the node of a work item. -/
def IsNode (node : String) (stats : WorkItemStats T) (statement : Statement) : Prop :=
  statement = .node (identifier scientific node stats)
    (intensityToRgb stats.exclusiveTime totalTreeTime)

/-- A statement is an edge from a work item to a child. -/
def IsEdge (g : DependencyGraph) (parent : String) (stats : WorkItemStats T)
    (statement : Statement) : Prop :=
  ∃ child childStats, g.Recorded parent child ∧ globalStats child = some childStats ∧
    statement = .edge (identifier scientific parent stats)
      (childIdentifier scientific child stats childStats)

variable {g : DependencyGraph}

/-- The nodes that are printed are those of the work items that are reached from the root. -/
theorem exists_printNode (acyclic : g.Acyclic) (root : String) : ∃ nodes,
    (∀ statement, statement ∈ nodes ↔ ∃ node stats, Reached globalStats g root node stats ∧
      IsNode scientific intensityToRgb totalTreeTime node stats statement) ∧
    Settles (printNode scientific intensityToRgb totalTreeTime globalStats g · root) nodes := by
  induction root using acyclic.wellFounded.induction with
  | _ root ih =>
    cases start : globalStats root with
    | none =>
      refine ⟨[], mem_nil_iff_reached start, .of_succ ?_⟩
      simp only [printNode, start]
      exact .pure _
    | some first =>
      obtain ⟨below, printed, settles⟩ := exists_settles_mapM fun child found =>
        ih child ((g.recorded_iff root child).mpr found)
      refine ⟨.node (identifier scientific root first)
        (intensityToRgb first.exclusiveTime totalTreeTime) :: below.flatten, fun statement => ?_,
        .of_succ ?_⟩
      · rw [List.mem_cons, printed, exists_reached_iff start]
        rfl
      · simp only [printNode, start]
        exact settles.bind (.pure _)

/-- The edges that are printed are those of the work items that are reached from the root. -/
theorem exists_printEdges (acyclic : g.Acyclic) (root : String) : ∃ edges,
    (∀ statement, statement ∈ edges ↔ ∃ node stats, Reached globalStats g root node stats ∧
      IsEdge scientific globalStats g node stats statement) ∧
    Settles (printEdges scientific globalStats g · root) edges := by
  induction root using acyclic.wellFounded.induction with
  | _ root ih =>
    cases start : globalStats root with
    | none =>
      refine ⟨[], mem_nil_iff_reached start, .of_succ ?_⟩
      simp only [printEdges, start]
      exact .pure _
    | some first =>
      have rounds (child : String) (found : child ∈ (g.find? root).getD []) : ∃ edges,
          (∀ statement, statement ∈ edges ↔
            (∃ childStats, globalStats child = some childStats ∧
              statement = .edge (identifier scientific root first)
                (childIdentifier scientific child first childStats)) ∨
            ∃ node stats, Reached globalStats g child node stats ∧
              IsEdge scientific globalStats g node stats statement) ∧
          Settles (fun fuel => match globalStats child with
            | none => some []
            | some it2 => do
              let edges ← printEdges scientific globalStats g fuel child
              some (.edge (identifier scientific root first)
                (childIdentifier scientific child first it2) :: edges)) edges := by
        cases there : globalStats child with
        | none =>
          refine ⟨[], fun statement => iff_of_false List.not_mem_nil ?_, .pure _⟩
          rintro (⟨childStats, here, -⟩ | ⟨node, stats, reached, -⟩)
          · cases here
          · exact not_reached there reached
        | some childStats =>
          obtain ⟨edges, printed, settles⟩ := ih child ((g.recorded_iff root child).mpr found)
          refine ⟨_ :: edges, fun statement => ?_, settles.bind (.pure _)⟩
          rw [List.mem_cons, printed]
          simp
      obtain ⟨below, printed, settles⟩ := exists_settles_mapM rounds
      refine ⟨below.flatten, fun statement => ?_, .of_succ ?_⟩
      · rw [printed, exists_reached_iff start]
        constructor
        · rintro ⟨child, found, ⟨childStats, there, edge⟩ | later⟩
          · exact .inl ⟨child, childStats, (g.recorded_iff root child).mpr found, there, edge⟩
          · exact .inr ⟨child, found, later⟩
        · rintro (⟨child, childStats, recorded, there, edge⟩ | ⟨child, found, later⟩)
          · exact ⟨child, (g.recorded_iff root child).mp recorded, .inl ⟨childStats, there, edge⟩⟩
          · exact ⟨child, found, .inr later⟩
      · simp only [printEdges, start]
        exact settles.bind (.pure _)

/-! ## Consistency -/

/-- The drawing is consistent: edges are between declared nodes, and they are those of the children
of the work items that are reached from the root. -/
structure Consistent (g : DependencyGraph) (root : String) (statements : List Statement) :
    Prop where
  /-- The endpoints. -/
  declared : ∀ source target, .edge source target ∈ statements →
    (∃ color, .node source color ∈ statements) ∧ ∃ color, .node target color ∈ statements
  /-- The edges. -/
  edges : ∀ source target, .edge source target ∈ statements ↔
    ∃ parent stats child childStats, Reached globalStats g root parent stats ∧
      g.Recorded parent child ∧ globalStats child = some childStats ∧
      source = identifier scientific parent stats ∧ target = identifier scientific child childStats

/-- Children have the names of their parents. -/
def SameNames (g : DependencyGraph) (root : String) : Prop :=
  ∀ parent stats child childStats, Reached globalStats g root parent stats →
    g.Recorded parent child → globalStats child = some childStats → childStats.name = stats.name

omit scientific in
/-- What stands before the first blank is determined. -/
theorem append_blank_inj {first second rest rest' : List Char} (blank : ' ' ∉ first)
    (blank' : ' ' ∉ second) (same : first ++ ' ' :: rest = second ++ ' ' :: rest') :
    first = second ∧ rest = rest' := by
  induction first generalizing second with
  | nil =>
    cases second with
    | nil => exact ⟨rfl, (List.cons.inj same).2⟩
    | cons char second =>
      have char_eq : ' ' = char := (List.cons.inj same).1
      exact absurd (char_eq ▸ List.mem_cons_self) blank'
  | cons char first ih =>
    cases second with
    | nil =>
      have char_eq : char = ' ' := (List.cons.inj same).1
      exact absurd (char_eq ▸ List.mem_cons_self) blank
    | cons char' second =>
      obtain ⟨char_eq, tails⟩ := List.cons.inj same
      obtain ⟨firsts, rests⟩ := ih (fun found => blank (List.mem_cons_of_mem _ found))
        (fun found => blank' (List.mem_cons_of_mem _ found)) tails
      exact ⟨by rw [char_eq, firsts], rests⟩

/-- The identifier of an edge for a child is the one of a node only if the child has that name. -/
theorem name_eq_of_childIdentifier {node child : String} {stats parentStats : WorkItemStats T}
    {childStats : WorkItemStats T} (here : globalStats node = some stats)
    (there : globalStats child = some childStats) (blank : ' ' ∉ node.toList)
    (blank' : ' ' ∉ child.toList)
    (same : childIdentifier scientific child parentStats childStats =
      identifier scientific node stats) : childStats.name = parentStats.name := by
  have chars := congrArg String.toList same
  unfold childIdentifier identifier at chars
  have space : (" " : String).toList = [' '] := rfl
  simp only [String.toList_append, space, List.append_assoc, List.singleton_append] at chars
  obtain ⟨ids, rests⟩ := append_blank_inj blank' blank chars
  have node_eq : child = node := String.toList_injective ids
  rw [node_eq, here, Option.some.injEq] at there
  rw [there] at rests
  exact (String.toList_injective (List.append_cancel_right rests)).symm

/-- Printing ends, with the nodes and the edges of the work items that are reached from the root. -/
theorem exists_printTreeture (acyclic : g.Acyclic) (root : String) : ∃ statements,
    Settles (printTreeture scientific intensityToRgb totalTreeTime globalStats g · root)
      statements ∧
    (∀ id color, .node id color ∈ statements ↔
      ∃ node stats, Reached globalStats g root node stats ∧
        IsNode scientific intensityToRgb totalTreeTime node stats (.node id color)) ∧
    ∀ source target, .edge source target ∈ statements ↔
      ∃ node stats, Reached globalStats g root node stats ∧
        IsEdge scientific globalStats g node stats (.edge source target) := by
  obtain ⟨nodes, isNode, settles⟩ :=
    exists_printNode scientific intensityToRgb totalTreeTime globalStats acyclic root
  obtain ⟨edges, isEdge, settles'⟩ := exists_printEdges scientific globalStats acyclic root
  refine ⟨nodes ++ edges, settles.bind (settles'.bind (.pure _)), fun id color => ?_,
    fun source target => ?_⟩
  · rw [List.mem_append, isNode, isEdge]
    constructor
    · rintro (printed | ⟨_, _, _, _, _, _, _, edge⟩)
      · exact printed
      · cases edge
    · exact .inl
  · rw [List.mem_append, isNode, isEdge]
    constructor
    · rintro (⟨_, _, _, node⟩ | printed)
      · cases node
      · exact printed
    · exact .inr

/-- For a forest of work items whose ids have no blanks, printing ends, and what it prints is
consistent exactly if no child that is reached from the root has another name than its parent. -/
theorem printTreeture_consistent_iff (acyclic : g.Acyclic)
    (noBlank : ∀ node stats, globalStats node = some stats → ' ' ∉ node.toList) (root : String) :
    ∃ statements,
      Settles (printTreeture scientific intensityToRgb totalTreeTime globalStats g · root)
        statements ∧
      (Consistent scientific globalStats g root statements ↔ SameNames globalStats g root) := by
  obtain ⟨statements, settles, node_iff, edge_iff⟩ :=
    exists_printTreeture scientific intensityToRgb totalTreeTime globalStats acyclic root
  refine ⟨statements, settles, ?_, ?_⟩
  · intro consistent parent stats child childStats reached recorded there
    have printed := (edge_iff _ _).mpr
      ⟨parent, stats, reached, child, childStats, recorded, there, rfl⟩
    obtain ⟨-, color, declared⟩ := consistent.declared _ _ printed
    obtain ⟨node, nodeStats, ⟨-, -, here⟩, isNode⟩ := (node_iff _ _).mp declared
    exact name_eq_of_childIdentifier scientific globalStats here there (noBlank _ _ here)
      (noBlank _ _ there) (Statement.node.inj isNode).1
  · intro sameNames
    have edges_iff (source target : String) : .edge source target ∈ statements ↔
        ∃ parent stats child childStats, Reached globalStats g root parent stats ∧
          g.Recorded parent child ∧ globalStats child = some childStats ∧
          source = identifier scientific parent stats ∧
          target = identifier scientific child childStats := by
      rw [edge_iff]
      constructor
      · rintro ⟨parent, stats, reached, child, childStats, recorded, there, edge⟩
        have name := sameNames parent stats child childStats reached recorded there
        obtain ⟨rfl, rfl⟩ := Statement.edge.inj edge
        refine ⟨parent, stats, child, childStats, reached, recorded, there, rfl, ?_⟩
        unfold childIdentifier identifier
        rw [name]
      · rintro ⟨parent, stats, child, childStats, reached, recorded, there, rfl, rfl⟩
        have name := sameNames parent stats child childStats reached recorded there
        refine ⟨parent, stats, reached, child, childStats, recorded, there, ?_⟩
        unfold childIdentifier
        rw [← name]
        rfl
    refine ⟨fun source target printed => ?_, edges_iff⟩
    obtain ⟨parent, stats, child, childStats, reached, recorded, there, rfl, rfl⟩ :=
      (edges_iff source target).mp printed
    have below : Reached globalStats g root child childStats :=
      ⟨reached.1, .tail reached.2.1 ⟨recorded, childStats, there⟩, there⟩
    exact ⟨⟨_, (node_iff _ _).mpr ⟨parent, stats, reached, rfl⟩⟩,
      ⟨_, (node_iff _ _).mpr ⟨child, childStats, below, rfl⟩⟩⟩

end Printing

/-- The format of times below ten that are whole. -/
def digitScientific (time : Nat) : String := Nat.repr time ++ ".000e+00"

/-- A work item with one child. -/
def oneChild : DependencyGraph := DependencyGraph.empty.record "T-0.1" "T-0.1.0"

/-- The statistics of the two, with the name of the child. -/
def twoStats (childName : String) : ProfileMap Nat := fun node =>
  if node = "T-0.1" then some ⟨"main", 1, 3⟩
  else if node = "T-0.1.0" then some ⟨childName, 2, 2⟩
  else none

/-- The child has the name of its parent. -/
theorem printTreeture_consistent_two : ∃ statements,
    Settles (printTreeture digitScientific (fun _ _ => 255) 3 (twoStats "main") oneChild · "T-0.1")
      statements ∧
    (Consistent digitScientific (twoStats "main") oneChild "T-0.1" statements ↔
      SameNames (twoStats "main") oneChild "T-0.1") := by
  have recorded {parent child : String} (found : oneChild.Recorded parent child) :
      parent = "T-0.1" ∧ child = "T-0.1.0" := by
    obtain ⟨children, entry, member⟩ := found
    rw [oneChild, DependencyGraph.find?_record] at entry
    by_cases same : parent = "T-0.1"
    · subst parent
      rw [Function.update_self] at entry
      cases entry
      exact ⟨rfl, List.mem_singleton.mp member⟩
    · rw [Function.update_of_ne same] at entry
      cases entry
  have acyclic : oneChild.Acyclic := by
    intro node below
    obtain ⟨child, first, -⟩ := TransGen.head'_iff.mp below
    obtain ⟨parent, -, last⟩ := TransGen.tail'_iff.mp below
    have upper := (recorded first).1
    have lower := (recorded last).2
    rw [upper] at lower
    exact absurd lower (by decide)
  have noBlank (node : String) (stats : WorkItemStats Nat)
      (found : twoStats "main" node = some stats) : ' ' ∉ node.toList := by
    unfold twoStats at found
    split at found
    · rename_i same
      rw [same]
      decide
    · split at found
      · rename_i same
        rw [same]
        decide
      · cases found
  exact printTreeture_consistent_iff digitScientific (fun _ _ => 255) 3 (twoStats "main") acyclic
    noBlank "T-0.1"

/-- The child has another name than its parent: the edge to it ends at an identifier that no node
has. -/
theorem not_printTreeture_consistent : ∃ statements,
    printTreeture digitScientific (fun _ _ => 255) 3 (twoStats "work") oneChild 3 "T-0.1" =
      some statements ∧
    .edge "T-0.1 main\\n Texcl = 1.000e+00\\n Tincl = 3.000e+00"
      "T-0.1.0 main\\n Texcl = 2.000e+00\\n Tincl = 2.000e+00" ∈ statements ∧
    ¬ Consistent digitScientific (twoStats "work") oneChild "T-0.1" statements := by
  refine ⟨[.node "T-0.1 main\\n Texcl = 1.000e+00\\n Tincl = 3.000e+00" 255,
    .node "T-0.1.0 work\\n Texcl = 2.000e+00\\n Tincl = 2.000e+00" 255,
    .edge "T-0.1 main\\n Texcl = 1.000e+00\\n Tincl = 3.000e+00"
      "T-0.1.0 main\\n Texcl = 2.000e+00\\n Tincl = 2.000e+00"], by decide +kernel,
    by simp, fun consistent => ?_⟩
  obtain ⟨-, color, declared⟩ := consistent.declared _ _
    (List.mem_cons_of_mem _ (List.mem_cons_of_mem _ List.mem_cons_self))
  simp at declared

end AllScale
