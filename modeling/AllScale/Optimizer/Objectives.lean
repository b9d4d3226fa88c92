import Mathlib.Data.List.Perm.Subperm
import AllScale.Lib.Writes
import AllScale.Optimizer.NelderMead

/-!
# The objectives of the local optimizer

The option `allscale.objective` names the objectives in the order of their priorities, each with a
leeway if it has one. The scheduler reads it twice: when the thread pools are set up, and when the
scheduler is initialised, which then passes the objectives to the local optimizer. The optimizer
keeps them in a vector and writes each one at the place of its priority.
-/

namespace AllScale

open NelderMead Double Writes

/-- `objectiveType`. -/
inductive ObjectiveType where
  | time
  | energy
  | resource
  deriving DecidableEq

/-- `objective`. The fields `localmin`, `localmax` and `currentthreshold` are left out. -/
structure Objective (F : Type) where
  /-- `type`. -/
  type : ObjectiveType
  /-- `leeway`. -/
  leeway : F
  /-- `priority`. -/
  priority : Nat
  /-- `globalmin`. -/
  globalMin : F
  /-- `globalmax`. -/
  globalMax : F
  /-- `samples`, the latest one first. -/
  samples : List F
  /-- `threads_samples`. -/
  threadsSamples : List F
  /-- `freq_samples`. -/
  freqSamples : List F
  /-- `converged`. -/
  converged : Bool
  /-- `initialized`. -/
  initialized : Bool
  /-- `min_params_idx`. -/
  minParamsIdx : Nat
  /-- `converged_minimum`. -/
  convergedMinimum : F
  /-- `minimization_params`. -/
  minimizationParams : Point F

/-- What the scheduler passes for an objective. -/
structure ObjectiveTarget (F : Type) where
  type : ObjectiveType
  leeway : F
  priority : Nat

/-- Why `init` throws. -/
inductive InitError where
  /-- `stod` throws. -/
  | stod (text : List Char)
  /-- `Wrong objective`. -/
  | wrongObjective (obj : List Char)
  /-- `leeways should be within ]0, 1]`. -/
  | leeways

/-- What `init` reads from the option, with the leeways and flags of the three objectives. -/
structure ObjectiveOptions (F : Type) where
  /-- `multi_objectives`. -/
  multiObjectives : Bool
  /-- `time_requested`, `energy_requested` and `resource_requested`. -/
  requested : ObjectiveType → Bool
  /-- `time_leeway`, `energy_leeway` and `resource_leeway`. -/
  leeway : ObjectiveType → F
  /-- `objectives_priorities`. -/
  priorities : List ObjectiveType

/-- `isspace`. -/
def isSpace (c : Char) : Bool := c.isWhitespace || c.toNat == 11 || c.toNat == 12

/-- The words that `>>` reads from a stream. -/
def words (input : List Char) : List (List Char) := (input.splitOnP isSpace).filter (· ≠ [])

/-- The name in a word of the option, and the text after the first colon. -/
def splitLeeway (word : List Char) : List Char × Option (List Char) :=
  match word.span (· ≠ ':') with
  | (obj, []) => (obj, none)
  | (obj, _ :: text) => (obj, some text)

namespace ObjectiveType

/-- The name of an objective. -/
def name : ObjectiveType → List Char
  | .time => ['t', 'i', 'm', 'e']
  | .energy => ['e', 'n', 'e', 'r', 'g', 'y']
  | .resource => ['r', 'e', 's', 'o', 'u', 'r', 'c', 'e']

/-- The comparisons with the names. -/
def ofName (obj : List Char) : Option ObjectiveType :=
  if obj = name .time then some .time
  else if obj = name .resource then some .resource
  else if obj = name .energy then some .energy
  else none

end ObjectiveType

section Model

variable {F : Type} [Double F]

/-- The objective, the leeway and whether there is one in a word of the option. -/
def readWord (stod : List Char → Option F) (word : List Char) :
    Except InitError (ObjectiveType × F × Bool) :=
  let (obj, text) := splitLeeway word
  match text.elim (some (literal 1)) stod with
  | none => .error (.stod (text.getD []))
  | some leeway =>
    match ObjectiveType.ofName obj with
    | none => .error (.wrongObjective obj)
    | some type => .ok (type, leeway, text.isSome)

namespace ObjectiveOptions

/-- What the constructor sets. -/
def start : ObjectiveOptions F where
  multiObjectives := false
  requested _ := false
  leeway _ := literal 1
  priorities := []

/-- What is set for a word of the option. -/
def add (self : ObjectiveOptions F) (entry : ObjectiveType × F × Bool) : ObjectiveOptions F where
  multiObjectives := self.multiObjectives || entry.2.2
  requested := Function.update self.requested entry.1 true
  leeway := Function.update self.leeway entry.1 entry.2.1
  priorities := self.priorities ++ [entry.1]

/-- Some leeway is too large. -/
def Exceeds (self : ObjectiveOptions F) : Prop :=
  literal 1 < self.leeway .time ∨ literal 1 < self.leeway .resource ∨
    literal 1 < self.leeway .energy

instance decidableExceeds (self : ObjectiveOptions F) : Decidable self.Exceeds :=
  inferInstanceAs (Decidable (_ ∨ _ ∨ _))

/-- The body of the loop over the words in `init`. -/
def read (stod : List Char → Option F) (self : ObjectiveOptions F) (word : List Char) :
    Except InitError (ObjectiveOptions F) := do
  let entry ← readWord stod word
  if (self.add entry).Exceeds then throw .leeways else pure (self.add entry)

/-- The objectives that `init` passes to the local optimizer. -/
def targets (self : ObjectiveOptions F) : List (ObjectiveTarget F) :=
  ([.energy, .time, .resource].filter (self.requested ·)).map fun type =>
    ⟨type, self.leeway type, self.priorities.idxOf type⟩

end ObjectiveOptions

/-- The loop over the words in `init`. -/
def readObjectives (stod : List Char → Option F) (input : List Char) :
    Except InitError (ObjectiveOptions F) :=
  (words input).foldlM (ObjectiveOptions.read stod) .start

/-- The loop over the words in `partition_resources`. -/
def elastic (stod : List Char → Option F) : List (List Char) → Except InitError Bool
  | [] => .ok false
  | word :: rest =>
    let (obj, text) := splitLeeway word
    match text.elim (some (literal 1)) stod with
    | none => .error (.stod (text.getD []))
    | some _ =>
      if obj = ObjectiveType.time.name then .ok true
      else if obj = ObjectiveType.resource.name then .ok true
      else elastic stod rest

/-- `enable_elasticity` in `partition_resources`. -/
def enableElasticity (stod : List Char → Option F) (input : List Char) : Except InitError Bool :=
  elastic stod (words input)

namespace Objective

/-- A member of a vector that has been resized. -/
def blank : Objective F where
  type := .time
  leeway := literal 0
  priority := 0
  globalMin := literal 0
  globalMax := literal 0
  samples := []
  threadsSamples := []
  freqSamples := []
  converged := false
  initialized := false
  minParamsIdx := 0
  convergedMinimum := literal 0
  minimizationParams := fun _ => literal 0

/-- What `setobjectives` makes of an objective. -/
def start (o : ObjectiveTarget F) : Objective F :=
  { blank with
    type := o.type
    leeway := o.leeway
    priority := o.priority
    globalMin := literal 10000
    globalMax := literal 0 }

end Objective

/-- `objectives_` after `setobjectives`. -/
def setObjectives (targetObjectives : List (ObjectiveTarget F)) : Option (List (Objective F)) :=
  targetObjectives.foldlM (fun objectives o => writeAt objectives o.priority (.start o))
    (List.replicate targetObjectives.length .blank)

/-! ## Reading the option -/

/-- The comparisons find the objective with the name. -/
theorem ObjectiveType.ofName_eq_some {obj : List Char} {type : ObjectiveType} :
    ofName obj = some type ↔ obj = type.name := by
  unfold ofName
  constructor
  · intro found
    split at found
    · cases found
      assumption
    · split at found
      · cases found
        assumption
      · split at found
        · cases found
          assumption
        · cases found
  · rintro rfl
    cases type <;> decide

/-- Different objectives have different names. -/
theorem ObjectiveType.name_inj {a b : ObjectiveType} : a.name = b.name ↔ a = b := by
  cases a <;> cases b <;> decide

variable {stod : List Char → Option F}

/-- What is read from a word. -/
theorem readWord_eq_ok {word : List Char} {entry : ObjectiveType × F × Bool} :
    readWord stod word = .ok entry ↔ (splitLeeway word).1 = entry.1.name ∧
      (splitLeeway word).2.elim (some (literal 1)) stod = some entry.2.1 ∧
      (splitLeeway word).2.isSome = entry.2.2 := by
  obtain ⟨type, leeway, given⟩ := entry
  rw [readWord]
  split
  rename_i obj text split
  rw [split]
  cases value : text.elim (some (literal 1)) stod with
  | none => simp
  | some leeway' =>
    cases name : ObjectiveType.ofName obj with
    | none =>
      have unknown : obj ≠ type.name := fun same => by
        rw [ObjectiveType.ofName_eq_some.mpr same] at name
        cases name
      simp [unknown]
    | some type' =>
      have same : obj = type.name ↔ type' = type := by
        rw [← ObjectiveType.ofName_eq_some, name, Option.some.injEq]
      simp [same]

namespace ObjectiveOptions

variable {self : ObjectiveOptions F} {entry : ObjectiveType × F × Bool}

/-- Setting one leeway makes a leeway too large exactly if it is. -/
theorem exceeds_add (fine : ¬ self.Exceeds) :
    (self.add entry).Exceeds ↔ literal 1 < entry.2.1 := by
  obtain ⟨type, leeway, given⟩ := entry
  simp only [Exceeds, not_or] at fine
  cases type <;> simp [Exceeds, add, fine]

/-- The loop accepts the words exactly if each one names an objective with a leeway that is not too
large, and then it sets what the words say. -/
theorem foldlM_read_eq_ok {words : List (List Char)} {options : ObjectiveOptions F}
    (fine : ¬ self.Exceeds) :
    words.foldlM (read stod) self = .ok options ↔
      ∃ entries, words.mapM (readWord stod) = .ok entries ∧
        (∀ entry ∈ entries, ¬ literal 1 < entry.2.1) ∧ options = entries.foldl add self := by
  induction words generalizing self with
  | nil => simp [pure, Except.pure, eq_comm]
  | cons word words ih =>
    rw [List.foldlM_cons, List.mapM_cons]
    cases first : readWord stod word with
    | error e => simp [read, first, bind, Except.bind]
    | ok entry =>
      have here : read stod self word =
          if (self.add entry).Exceeds then .error .leeways else .ok (self.add entry) := by
        rw [read, first]
        rfl
      have tail (entries : List (ObjectiveType × F × Bool)) :
          (do let entry ← (.ok entry : Except InitError _)
              let rest ← words.mapM (readWord stod)
              return entry :: rest) = .ok entries ↔
            ∃ rest, words.mapM (readWord stod) = .ok rest ∧ entries = entry :: rest := by
        cases words.mapM (readWord stod) <;> simp [bind, Except.bind, pure, Except.pure, eq_comm]
      rw [here]
      simp only [tail]
      by_cases large : literal 1 < entry.2.1
      · rw [if_pos ((exceeds_add fine).mpr large)]
        refine ⟨fun impossible => (nomatch impossible), fun ⟨_, ⟨rest, _, same⟩, below, _⟩ => ?_⟩
        rw [same] at below
        exact absurd large (below entry List.mem_cons_self)
      · have fine' : ¬ (self.add entry).Exceeds := (exceeds_add fine).not.mpr large
        rw [if_neg fine']
        refine (ih fine').trans ⟨fun ⟨rest, read, below, same⟩ => ?_,
          fun ⟨_, ⟨rest, read, entries⟩, below, same⟩ => ?_⟩
        · exact ⟨_, ⟨rest, read, rfl⟩, List.forall_mem_cons.mpr ⟨large, below⟩, same⟩
        · rw [entries] at below same
          exact ⟨rest, read, (List.forall_mem_cons.mp below).2, same⟩

/-- The leeway of the last entry for an objective, or a default. -/
def lastLeeway (entries : List (ObjectiveType × F × Bool)) (type : ObjectiveType) (default : F) :
    F :=
  entries.foldl (fun leeway entry => if entry.1 = type then entry.2.1 else leeway) default

omit [Double F] in
/-- What some entries set. -/
theorem foldl_add (entries : List (ObjectiveType × F × Bool)) (self : ObjectiveOptions F) :
    entries.foldl add self = {
      multiObjectives := self.multiObjectives || entries.any (·.2.2)
      requested := fun type => self.requested type || decide (type ∈ entries.map Prod.fst)
      leeway := fun type => lastLeeway entries type (self.leeway type)
      priorities := self.priorities ++ entries.map Prod.fst } := by
  induction entries generalizing self with
  | nil => simp [lastLeeway]
  | cons entry entries ih =>
    rw [List.foldl_cons, ih]
    simp only [add, ObjectiveOptions.mk.injEq]
    refine ⟨by simp [Bool.or_assoc], funext fun type => ?_, funext fun type => ?_, by simp⟩
    · by_cases same : type = entry.1
      · subst same
        simp
      · rw [Function.update_of_ne same, Bool.eq_iff_iff]
        simp [same]
    · rw [lastLeeway, lastLeeway, List.foldl_cons]
      by_cases same : entry.1 = type
      · subst same
        simp
      · rw [if_neg same, Function.update_of_ne (Ne.symm same)]

end ObjectiveOptions

/-- When all words can be read, elasticity is enabled exactly if one of them names the time or the
resources. -/
theorem elastic_eq {words : List (List Char)} {entries : List (ObjectiveType × F × Bool)}
    (read : words.mapM (readWord stod) = .ok entries) :
    elastic stod words =
      .ok (decide (.time ∈ entries.map Prod.fst) || decide (.resource ∈ entries.map Prod.fst)) := by
  induction words generalizing entries with
  | nil =>
    cases read
    rfl
  | cons word words ih =>
    rw [List.mapM_cons] at read
    cases first : readWord stod word with
    | error e =>
      rw [first] at read
      cases read
    | ok entry =>
      cases rest : words.mapM (readWord stod) with
      | error e =>
        rw [first, rest] at read
        cases read
      | ok entries' =>
        rw [first, rest] at read
        cases read
        obtain ⟨name, leeway, -⟩ := readWord_eq_ok.mp first
        rw [elastic]
        split
        rename_i obj text split
        rw [split] at name leeway
        rw [leeway, ih rest]
        change obj = _ at name
        simp only [name, ObjectiveType.name_inj, List.map_cons]
        cases kind : entry.1 with
        | time => simp
        | energy =>
          rw [if_neg (by decide), if_neg (by decide), Except.ok.injEq, Bool.eq_iff_iff]
          simp
        | resource =>
          rw [if_neg (by decide)]
          simp

/-! ## Writing the vector -/

namespace ObjectiveOptions

variable {options : ObjectiveOptions F} {objectives : List (Objective F)}

/-- The objective that the local optimizer gets for a type. -/
def objective (self : ObjectiveOptions F) (type : ObjectiveType) : Objective F :=
  .start ⟨type, self.leeway type, self.priorities.idxOf type⟩

/-- The types that are requested. -/
def types (self : ObjectiveOptions F) : List ObjectiveType :=
  [.energy, .time, .resource].filter (self.requested ·)

omit [Double F] in
/-- Each type is requested at most once. -/
theorem types_nodup (self : ObjectiveOptions F) : self.types.Nodup :=
  List.Nodup.filter _ (by decide)

omit [Double F] in
/-- The requested types are those with a priority. -/
theorem mem_types (requested : ∀ type, options.requested type = true ↔ type ∈ options.priorities)
    (type : ObjectiveType) : type ∈ options.types ↔ type ∈ options.priorities := by
  rw [types, List.mem_filter, requested]
  refine ⟨And.right, fun found => ⟨?_, found⟩⟩
  cases type <;> decide

omit [Double F] in
/-- The loop of `setobjectives` goes over the requested types. -/
theorem targets_eq (self : ObjectiveOptions F) : self.targets = self.types.map fun type =>
    ⟨type, self.leeway type, self.priorities.idxOf type⟩ := rfl

/-- `setobjectives` writes the objective of each type at its priority. -/
theorem setObjectives_targets (self : ObjectiveOptions F) : setObjectives self.targets =
    if ∀ type ∈ self.types, self.priorities.idxOf type < self.types.length then
      some (self.types.foldl (fun vector type =>
        vector.set (self.priorities.idxOf type) (self.objective type))
        (List.replicate self.types.length .blank))
    else none := by
  rw [setObjectives, targets_eq, List.length_map, List.foldlM_map]
  have loop := foldlM_writeAt (self.priorities.idxOf ·) self.objective self.types
    (List.replicate self.types.length .blank)
  rw [List.length_replicate] at loop
  exact loop

/-- When repeats come last, the vector holds the objectives in the order in which they are first
named. -/
theorem setObjectives_append
    (requested : ∀ type, options.requested type = true ↔ type ∈ options.priorities)
    {distinct repeats : List ObjectiveType} (priorities : options.priorities = distinct ++ repeats)
    (nodup : distinct.Nodup) (repeated : repeats ⊆ distinct) :
    setObjectives options.targets = some (distinct.map options.objective) := by
  have same (type : ObjectiveType) : type ∈ options.types ↔ type ∈ distinct := by
    rw [mem_types requested, priorities, List.mem_append]
    exact ⟨fun found => found.elim id (@repeated type), Or.inl⟩
  have perm : options.types.Perm distinct :=
    (List.perm_ext_iff_of_nodup options.types_nodup nodup).mpr same
  have place {type : ObjectiveType} (found : type ∈ distinct) :
      options.priorities.idxOf type = distinct.idxOf type := by
    rw [priorities, List.idxOf_append_of_mem found]
  have inside (type : ObjectiveType) (found : type ∈ options.types) :
      options.priorities.idxOf type < options.types.length := by
    have found := (same type).mp found
    rw [place found, perm.length_eq]
    exact List.idxOf_lt_length_iff.mpr found
  have apart : (options.types.map (options.priorities.idxOf ·)).Nodup := by
    refine List.Nodup.map_on (fun a foundA b foundB equal => ?_) options.types_nodup
    rw [place ((same a).mp foundA), place ((same b).mp foundB)] at equal
    exact (List.idxOf_inj ((same a).mp foundA)).mp equal
  rw [setObjectives_targets, if_pos inside, Option.some.injEq]
  refine List.ext_getElem? fun i => ?_
  by_cases bound : i < distinct.length
  · have found := List.getElem_mem bound
    have here : options.priorities.idxOf distinct[i] = i := by
      rw [place found]
      exact nodup.idxOf_getElem i bound
    have written := getElem?_foldl_set options.objective
      (List.replicate options.types.length .blank) apart ((same _).mpr found)
      (by rw [List.length_replicate]; exact inside _ ((same _).mpr found))
    rw [here] at written
    rw [written, List.getElem?_map, List.getElem?_eq_getElem bound]
    rfl
  · rw [List.getElem?_eq_none, List.getElem?_eq_none]
    · rw [List.length_map]
      omega
    · rw [length_foldl_set, List.length_replicate, perm.length_eq]
      omega

/-- `setobjectives` stays inside of its vector exactly if repeats come last. -/
theorem setObjectives_eq_some
    (requested : ∀ type, options.requested type = true ↔ type ∈ options.priorities) :
    setObjectives options.targets = some objectives ↔
      ∃ distinct repeats, options.priorities = distinct ++ repeats ∧ distinct.Nodup ∧
        repeats ⊆ distinct ∧ objectives = distinct.map options.objective := by
  constructor
  · intro set
    have inside : ∀ type ∈ options.types,
        options.priorities.idxOf type < options.types.length := by
      rw [setObjectives_targets] at set
      by_contra outside
      rw [if_neg outside] at set
      cases set
    have early {type : ObjectiveType} (found : type ∈ options.priorities) :
        type ∈ options.priorities.take options.types.length := by
      have bound := inside type ((mem_types requested type).mpr found)
      rw [List.mem_take_iff_getElem]
      exact ⟨_, by have := List.idxOf_lt_length_iff.mpr found; omega,
        List.getElem_idxOf (List.idxOf_lt_length_iff.mpr found)⟩
    have perm : options.types.Perm (options.priorities.take options.types.length) := by
      refine (options.types_nodup.subperm fun type found =>
        early ((mem_types requested type).mp found)).perm_of_length_le ?_
      exact List.length_take_le _ _
    have parts := (List.take_append_drop options.types.length options.priorities).symm
    have nodup := perm.nodup_iff.mp options.types_nodup
    have repeated : options.priorities.drop options.types.length ⊆
        options.priorities.take options.types.length := fun type found =>
      early (List.mem_of_mem_drop found)
    refine ⟨_, _, parts, nodup, repeated, ?_⟩
    rw [setObjectives_append requested parts nodup repeated] at set
    exact (Option.some.inj set).symm
  · intro ⟨distinct, repeats, priorities, nodup, repeated, same⟩
    rw [same]
    exact setObjectives_append requested priorities nodup repeated

end ObjectiveOptions

/-- What the scheduler reads from the option, and what it makes of it. -/
structure Reads (stod : List Char → Option F) (input : List Char) (options : ObjectiveOptions F)
    (entries : List (ObjectiveType × F × Bool)) : Prop where
  /-- Each word names an objective, with its leeway. -/
  words : (words input).mapM (readWord stod) = .ok entries
  /-- The leeways that are accepted. -/
  leeways : ∀ entry ∈ entries, ¬ literal 1 < entry.2.1
  /-- The priorities are the objectives in the order of the words. -/
  priorities : options.priorities = entries.map Prod.fst
  /-- The leeway of an objective is that of the last word that names it. -/
  leeway : ∀ type, options.leeway type = ObjectiveOptions.lastLeeway entries type (literal 1)
  /-- Both readers of the option agree. -/
  elastic : enableElasticity stod input =
    .ok (options.requested .time || options.requested .resource)
  /-- The local optimizer gets the objectives in the order of their first words, unless one is
  repeated before another is named for the first time: then `setobjectives` writes outside of its
  vector. -/
  vector : ∀ objectives, setObjectives options.targets = some objectives ↔
    ∃ distinct repeats, options.priorities = distinct ++ repeats ∧ distinct.Nodup ∧
      repeats ⊆ distinct ∧ objectives = distinct.map options.objective

/-- The option is accepted exactly if each word can be read and has no leeway above one; then it
means what its words say. -/
theorem objectives_of_option (fine : ¬ (literal 1 : F) < literal 1) (stod : List Char → Option F)
    (input : List Char) :
    ((∃ options, readObjectives stod input = .ok options) ↔
      ∃ entries, (AllScale.words input).mapM (readWord stod) = .ok entries ∧
        ∀ entry ∈ entries, ¬ literal 1 < entry.2.1) ∧
    ∀ options, readObjectives stod input = .ok options →
      ∃ entries, Reads stod input options entries := by
  have start : ¬ (ObjectiveOptions.start : ObjectiveOptions F).Exceeds := by
    simp [ObjectiveOptions.Exceeds, ObjectiveOptions.start, fine]
  refine ⟨⟨fun ⟨options, accepted⟩ => ?_, fun ⟨entries, words, leeways⟩ => ?_⟩,
    fun options accepted => ?_⟩
  · obtain ⟨entries, words, leeways, -⟩ :=
      (ObjectiveOptions.foldlM_read_eq_ok start).mp accepted
    exact ⟨entries, words, leeways⟩
  · exact ⟨_, (ObjectiveOptions.foldlM_read_eq_ok start).mpr ⟨entries, words, leeways, rfl⟩⟩
  · obtain ⟨entries, words, leeways, same⟩ :=
      (ObjectiveOptions.foldlM_read_eq_ok start).mp accepted
    rw [ObjectiveOptions.foldl_add] at same
    have priorities : options.priorities = entries.map Prod.fst := by rw [same]; rfl
    have flag (type : ObjectiveType) :
        options.requested type = decide (type ∈ entries.map Prod.fst) := by rw [same]; rfl
    have requested (type : ObjectiveType) :
        options.requested type = true ↔ type ∈ options.priorities := by
      rw [flag, priorities, decide_eq_true_iff]
    refine ⟨entries, words, leeways, priorities, fun type => by rw [same]; rfl, ?_,
      fun objectives => ObjectiveOptions.setObjectives_eq_some requested⟩
    rw [enableElasticity, elastic_eq words, flag, flag]

end Model

/-- `stod` for one text. -/
def stodHalf (text : List Char) : Option Exact :=
  if text = ['0', '.', '5'] then some (literal (1 / 2)) else none

/-- The energy comes first and the time second, with the leeway of its last word. -/
theorem objectives_of_option_two : ∃ options : ObjectiveOptions Exact,
    readObjectives stodHalf "energy time time:0.5".toList = .ok options ∧
      options.priorities = [.energy, .time, .time] ∧
      (setObjectives options.targets).map (·.map (·.type)) = some [.energy, .time] ∧
      ∃ entries, Reads stodHalf "energy time time:0.5".toList options entries := by
  have computed : (readObjectives stodHalf "energy time time:0.5".toList).toOption.map
      (fun options => (options.priorities, (setObjectives options.targets).map (·.map (·.type)))) =
        some ([.energy, .time, .time], some [.energy, .time]) := by decide +kernel
  cases accepted : readObjectives stodHalf "energy time time:0.5".toList with
  | error e =>
    rw [accepted] at computed
    cases computed
  | ok options =>
    rw [accepted] at computed
    obtain ⟨priorities, vector⟩ := Prod.mk.inj (Option.some.inj computed)
    exact ⟨options, rfl, priorities, vector,
      (objectives_of_option (by decide) _ _).2 options accepted⟩

-- The energy would be written behind the vector of two objectives.
example : (readObjectives stodHalf "time time energy".toList).toOption.map
    (fun options => (setObjectives options.targets).isSome) = some false := by decide +kernel

end AllScale
