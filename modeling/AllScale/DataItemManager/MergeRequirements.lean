import Mathlib.Data.Finset.Basic
import Mathlib.Data.List.Dedup
import AllScale.Lib.KeyedList
import AllScale.DataItemManager.IndexEntry

/-!
# Merging requirements

The requirements of a work item are a tuple of requirements for data items of different types.
`merge_data_item_reqs` sorts them into one vector for every type, from the last one to the first,
and merges those that name the same data item and access mode.
-/

namespace AllScale

/-- `data_item_requirement` of a data item type with regions of elements `α`. -/
structure DataItemRequirement (ID α : Type) where
  /-- The identifier of `ref`. -/
  ref : ID
  /-- `region`. -/
  region : Finset α
  /-- `allowance`. -/
  allowance : Finset α
  /-- `mode`; `none` is `Invalid`. -/
  mode : Option AccessMode
  deriving DecidableEq

namespace DataItemRequirement

variable {ID α : Type} [DecidableEq ID] [DecidableEq α]

/-- What is compared when a requirement is looked for: the data item and the access mode. -/
def key (self : DataItemRequirement ID α) : ID × Option AccessMode := (self.ref, self.mode)

/-- What a requirement asks for: the region of a data item and the kind of access. -/
def entry (self : DataItemRequirement ID α) : ID × Option AccessMode × Finset α :=
  (self.ref, self.mode, self.region)

/-- A requirement whose region has been merged with that of another one. -/
def mergeRegion (self cur : DataItemRequirement ID α) : DataItemRequirement ID α :=
  { self with region := self.region ∪ cur.region }

omit [DecidableEq ID] in
/-- Merging a region keeps the data item and the mode. -/
theorem key_mergeRegion (self cur : DataItemRequirement ID α) :
    (self.mergeRegion cur).key = self.key := rfl

end DataItemRequirement

open DataItemRequirement

section Merge

variable {τ ID : Type} {E : τ → Type} [DecidableEq τ] [DecidableEq ID] [∀ t, DecidableEq (E t)]

/-- `merge_data_item_reqs_result` — the types of the vectors: a type is left out where it occurs
again later. -/
def mergeDataItemReqsResult : List τ → List τ
  | [] => []
  | first :: rest =>
    if first ∈ rest then mergeDataItemReqsResult rest else first :: mergeDataItemReqsResult rest

/-- Every type is kept once. -/
theorem mergeDataItemReqsResult_eq (types : List τ) :
    mergeDataItemReqsResult types = types.dedup := by
  induction types with
  | nil => rfl
  | cons first rest ih =>
    rw [mergeDataItemReqsResult]
    split
    · rename_i again
      rw [ih, List.dedup_cons_of_mem again]
    · rename_i last
      rw [ih, List.dedup_cons_of_notMem last]

/-- The tuple of vectors that `merge_data_item_reqs` fills. -/
structure MergedReqs (ID : Type) (E : τ → Type) where
  /-- The types of the requirements in the vectors. -/
  types : List τ
  /-- The vector of a type. -/
  reqs : ∀ t, List (DataItemRequirement ID (E t))

/-- A requirement of one of the types. -/
abbrev TypedReq (ID : Type) (E : τ → Type) := Σ t, DataItemRequirement ID (E t)

/-- The search for a requirement that covers the same data item and mode, which then also gets the
region; without one the requirement is added. -/
def insertReq {α : Type} [DecidableEq α] (cur : DataItemRequirement ID α) :
    List (DataItemRequirement ID α) → List (DataItemRequirement ID α)
  | [] => [cur]
  | req :: reqs =>
    if req.ref = cur.ref then
      if req.mode = cur.mode then mergeRegion req cur :: reqs
      else req :: insertReq cur reqs
    else req :: insertReq cur reqs

/-- One step of `merge_data_item_reqs_inserter::insert`. -/
def MergedReqs.insert (cur : TypedReq ID E) (res : MergedReqs ID E) : MergedReqs ID E :=
  { res with reqs := Function.update res.reqs cur.1 (insertReq cur.2 (res.reqs cur.1)) }

/-- `merge_data_item_reqs` — the inserter starts at the last element of the tuple. -/
def mergeDataItemReqs (tuple : List (TypedReq ID E)) : MergedReqs ID E :=
  tuple.foldr MergedReqs.insert
    { types := mergeDataItemReqsResult (tuple.map Sigma.fst), reqs := fun _ => [] }

/-! ## The vector of a type -/

/-- The requirement of a type, when it is of that type. -/
def TypedReq.ofType (t : τ) (cur : TypedReq ID E) : Option (DataItemRequirement ID (E t)) :=
  if same : cur.1 = t then some (same ▸ cur.2) else none

omit [DecidableEq ID] [∀ t, DecidableEq (E t)] in
/-- A requirement has only its own type. -/
theorem TypedReq.ofType_eq_some {t : τ} {cur : TypedReq ID E}
    {req : DataItemRequirement ID (E t)} : cur.ofType t = some req ↔ cur = ⟨t, req⟩ := by
  obtain ⟨u, own⟩ := cur
  unfold TypedReq.ofType
  constructor
  · intro found
    split at found
    · rename_i same
      cases same
      cases found
      rfl
    · cases found
  · rintro ⟨⟩
    exact dif_pos rfl

/-- The search and the insertion absorb a requirement under its data item and mode. -/
theorem insertReq_eq {α : Type} [DecidableEq α] (cur : DataItemRequirement ID α)
    (reqs : List (DataItemRequirement ID α)) :
    insertReq cur reqs = KeyedList.absorb key mergeRegion cur reqs := by
  induction reqs with
  | nil => rfl
  | cons req reqs ih =>
    rw [insertReq, KeyedList.absorb, ih]
    by_cases item : req.ref = cur.ref
    · by_cases mode : req.mode = cur.mode
      · have same : key req = key cur := Prod.ext item mode
        rw [if_pos item, if_pos mode, if_pos same]
      · have different : ¬ key req = key cur := fun same => mode (congrArg Prod.snd same)
        rw [if_pos item, if_neg mode, if_neg different]
    · have different : ¬ key req = key cur := fun same => item (congrArg Prod.fst same)
      rw [if_neg item, if_neg different]

/-- The vector of a type gathers the requirements of the type. -/
theorem reqs_mergeDataItemReqs (tuple : List (TypedReq ID E)) (t : τ) :
    (mergeDataItemReqs tuple).reqs t =
      KeyedList.gather key mergeRegion (tuple.filterMap (TypedReq.ofType t)) := by
  have loop (start : MergedReqs ID E) (empty : start.reqs t = []) :
      (tuple.foldr MergedReqs.insert start).reqs t =
        KeyedList.gather key mergeRegion (tuple.filterMap (TypedReq.ofType t)) := by
    induction tuple with
    | nil => exact empty
    | cons cur tuple ih =>
      obtain ⟨u, own⟩ := cur
      rw [List.foldr_cons, MergedReqs.insert]
      by_cases same : u = t
      · subst same
        have here : TypedReq.ofType u (⟨u, own⟩ : TypedReq ID E) = some own := dif_pos rfl
        rw [List.filterMap_cons_some here, KeyedList.gather_cons, ← ih, ← insertReq_eq]
        exact Function.update_self _ _ _
      · have elsewhere : TypedReq.ofType t (⟨u, own⟩ : TypedReq ID E) = none := dif_neg same
        rw [List.filterMap_cons_none elsewhere, ← ih]
        exact Function.update_of_ne (Ne.symm same) _ _
  exact loop _ rfl

/-- The types of the result are those of the tuple. -/
theorem types_mergeDataItemReqs (tuple : List (TypedReq ID E)) :
    (mergeDataItemReqs tuple).types = (tuple.map Sigma.fst).dedup := by
  rw [← mergeDataItemReqsResult_eq]
  have loop (start : MergedReqs ID E) :
      (tuple.foldr MergedReqs.insert start).types = start.types := by
    induction tuple with
    | nil => rfl
    | cons cur tuple ih => exact ih
  exact loop _

end Merge

/-! ## What is merged -/

/-- A vector consists of the merged requirements of a type: nothing is lost, added or merged across
data items and modes. -/
structure Merged {ID α : Type} (inputs : DataItemRequirement ID α → Prop)
    (reqs : List (DataItemRequirement ID α)) : Prop where
  /-- There is at most one entry for a data item and a mode. -/
  unique : (reqs.map key).Nodup
  /-- The pairs of a data item and a mode are those of the inputs. -/
  pairs : ∀ id mode, (∃ req ∈ reqs, req.ref = id ∧ req.mode = mode) ↔
    ∃ cur, inputs cur ∧ cur.ref = id ∧ cur.mode = mode
  /-- The region of an entry is the union of those of the inputs with its data item and mode. -/
  region : ∀ req ∈ reqs, ∀ x, x ∈ req.region ↔
    ∃ cur, inputs cur ∧ cur.ref = req.ref ∧ cur.mode = req.mode ∧ x ∈ cur.region
  /-- The allowance of an entry is that of one of these inputs. -/
  allowance : ∀ req ∈ reqs, ∃ cur, inputs cur ∧ cur.ref = req.ref ∧ cur.mode = req.mode ∧
    cur.allowance = req.allowance

namespace Merged

variable {ID α : Type} {inputs inputs' : DataItemRequirement ID α → Prop}
  {reqs reqs' : List (DataItemRequirement ID α)}

/-- What is gathered under data items and modes is merged. -/
theorem gather [DecidableEq ID] [DecidableEq α] (tuple : List (DataItemRequirement ID α)) :
    Merged (· ∈ tuple) (KeyedList.gather key mergeRegion tuple) where
  unique := KeyedList.nodup_gather key_mergeRegion tuple
  pairs id mode := by
    have keys := KeyedList.mem_map_key_gather key_mergeRegion tuple (id, mode)
    simpa [key] using keys
  region req found x := by
    have joins (self cur : DataItemRequirement ID α) (x : α) :
        x ∈ (self.mergeRegion cur).region ↔ x ∈ self.region ∨ x ∈ cur.region := Finset.mem_union
    have holds := KeyedList.holds_gather key_mergeRegion (fun req x => x ∈ req.region) joins found x
    simpa [key, and_assoc] using holds
  allowance req found := by
    have first (self cur : DataItemRequirement ID α) :
        (self.mergeRegion cur).allowance = self.allowance := rfl
    obtain ⟨cur, there, same, kept⟩ := KeyedList.kept_gather key_mergeRegion first found
    exact ⟨cur, there, congrArg Prod.fst same, congrArg Prod.snd same, kept⟩

/-- An entry of one vector is, but for its allowance, one of the other vector of the same inputs. -/
theorem exists_entry (merged : Merged inputs reqs) (merged' : Merged inputs' reqs')
    (same : ∀ cur, inputs cur ↔ inputs' cur) {req : DataItemRequirement ID α}
    (found : req ∈ reqs) : ∃ req' ∈ reqs', req'.entry = req.entry := by
  obtain ⟨cur, input, item, mode⟩ := (merged.pairs req.ref req.mode).mp ⟨req, found, rfl, rfl⟩
  obtain ⟨req', found', item', mode'⟩ := (merged'.pairs req.ref req.mode).mpr
    ⟨cur, (same cur).mp input, item, mode⟩
  refine ⟨req', found', Prod.ext item' (Prod.ext mode' (Finset.ext fun x => ?_))⟩
  show x ∈ req'.region ↔ x ∈ req.region
  rw [merged'.region req' found', merged.region req found, item', mode']
  exact exists_congr fun cur => and_congr_left' (same cur).symm

/-- The same inputs give the same entries in some order. -/
theorem perm_entries (merged : Merged inputs reqs) (merged' : Merged inputs' reqs')
    (same : ∀ cur, inputs cur ↔ inputs' cur) :
    (reqs.map entry).Perm (reqs'.map entry) := by
  have within {inputs inputs' : DataItemRequirement ID α → Prop}
      {reqs reqs' : List (DataItemRequirement ID α)} (merged : Merged inputs reqs)
      (merged' : Merged inputs' reqs') (same : ∀ cur, inputs cur ↔ inputs' cur) :
      ∀ v, v ∈ reqs.map entry → v ∈ reqs'.map entry := by
    intro v found
    obtain ⟨req, there, rfl⟩ := List.mem_map.mp found
    exact List.mem_map.mpr (merged.exists_entry merged' same there)
  exact KeyedList.perm_map_of_nodup (fun v => (v.1, v.2.1)) (fun _ => rfl) merged.unique
    merged'.unique fun v =>
      ⟨within merged merged' same v, within merged' merged (fun cur => (same cur).symm) v⟩

/-- Where no input has an allowance, the same inputs give the same requirements in some order. -/
theorem perm (merged : Merged inputs reqs) (merged' : Merged inputs' reqs')
    (same : ∀ cur, inputs cur ↔ inputs' cur) (empty : ∀ cur, inputs cur → cur.allowance = ∅) :
    reqs.Perm reqs' := by
  have within {inputs inputs' : DataItemRequirement ID α → Prop}
      {reqs reqs' : List (DataItemRequirement ID α)} (merged : Merged inputs reqs)
      (merged' : Merged inputs' reqs') (same : ∀ cur, inputs cur ↔ inputs' cur)
      (empty : ∀ cur, inputs cur → cur.allowance = ∅) : ∀ req, req ∈ reqs → req ∈ reqs' := by
    intro req found
    obtain ⟨req', found', entries⟩ := merged.exists_entry merged' same found
    obtain ⟨cur, input, -, -, kept⟩ := merged.allowance req found
    obtain ⟨cur', input', -, -, kept'⟩ := merged'.allowance req' found'
    have allowances : req'.allowance = req.allowance := by
      rw [← kept, ← kept', empty cur input, empty cur' ((same cur').mpr input')]
    have whole : req' = req := by
      cases req
      cases req'
      simp_all [entry]
    exact whole ▸ found'
  apply (List.perm_ext_iff_of_nodup (.of_map key merged.unique) (.of_map key merged'.unique)).mpr
  exact fun req => ⟨within merged merged' same empty req, within merged' merged
    (fun cur => (same cur).symm) (fun cur input => empty cur ((same cur).mpr input)) req⟩

end Merged

/-- For every tuple of requirements the result has one vector for every type that occurs. The
vector has exactly one entry for every data item and access mode that occur together in the
requirements of the type, and the region of the entry is the union of theirs. A tuple in another
order gives the same entries in some order. -/
theorem mergeDataItemReqs_spec {τ ID : Type} {E : τ → Type} [DecidableEq τ] [DecidableEq ID]
    [∀ t, DecidableEq (E t)] (tuple : List (TypedReq ID E)) :
    (mergeDataItemReqs tuple).types.Nodup ∧
      (∀ t, t ∈ (mergeDataItemReqs tuple).types ↔ ∃ cur ∈ tuple, cur.1 = t) ∧
      (∀ t, Merged (fun cur => ⟨t, cur⟩ ∈ tuple) ((mergeDataItemReqs tuple).reqs t)) ∧
      ∀ permuted, tuple.Perm permuted →
        (mergeDataItemReqs tuple).types.Perm (mergeDataItemReqs permuted).types ∧
        ∀ t, (((mergeDataItemReqs tuple).reqs t).map entry).Perm
            (((mergeDataItemReqs permuted).reqs t).map entry) ∧
          ((∀ cur, ⟨t, cur⟩ ∈ tuple → cur.allowance = ∅) →
            ((mergeDataItemReqs tuple).reqs t).Perm ((mergeDataItemReqs permuted).reqs t)) := by
  have merged (tuple : List (TypedReq ID E)) (t : τ) :
      Merged (fun cur => ⟨t, cur⟩ ∈ tuple) ((mergeDataItemReqs tuple).reqs t) := by
    have same : (fun cur => (⟨t, cur⟩ : TypedReq ID E) ∈ tuple) =
        (· ∈ tuple.filterMap (TypedReq.ofType t)) := by
      funext cur
      simp [List.mem_filterMap, TypedReq.ofType_eq_some]
    rw [reqs_mergeDataItemReqs, same]
    exact Merged.gather _
  refine ⟨?_, fun t => ?_, merged tuple, fun permuted perm => ⟨?_, fun t => ⟨?_, fun empty => ?_⟩⟩⟩
  · rw [types_mergeDataItemReqs]
    exact List.nodup_dedup _
  · rw [types_mergeDataItemReqs, List.mem_dedup, List.mem_map]
  · rw [types_mergeDataItemReqs, types_mergeDataItemReqs]
    exact (perm.map _).dedup
  · exact (merged tuple t).perm_entries (merged permuted t) fun cur => perm.mem_iff
  · exact (merged tuple t).perm (merged permuted t) (fun cur => perm.mem_iff) empty

end AllScale
