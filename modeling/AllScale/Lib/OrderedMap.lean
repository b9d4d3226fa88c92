import Mathlib.Data.List.Perm.Lattice
import Mathlib.Order.Lattice
import Mathlib.Tactic.Common

/-!
# Ordered maps

A map with the keys in ascending order, as an association list: every key has at most one value, and
iterating over the map visits the keys in their order. A value is changed in place, and a key
without a value is given a default first.
-/

/-- A map from keys to values, in ascending order of the keys. -/
structure OrderedMap (κ ν : Type) [LinearOrder κ] where
  /-- The keys with their values. -/
  entries : List (κ × ν)
  /-- The keys are in ascending order. -/
  ascending : (entries.map Prod.fst).Pairwise (· < ·)

namespace OrderedMap

variable {κ ν ω : Type} [LinearOrder κ]

/-- The map without keys. -/
def empty : OrderedMap κ ν := ⟨[], .nil⟩

/-- The keys of a map. -/
def keys (m : OrderedMap κ ν) : List κ := m.entries.map Prod.fst

/-- The value of a key. -/
def find? (m : OrderedMap κ ν) (key : κ) : Option ν :=
  (m.entries.find? fun entry => entry.1 = key).map Prod.snd

/-- Changes the value of a key in an ascending list, or adds the key with a changed default. -/
def updateList (key : κ) (new : ν) (f : ν → ν) : List (κ × ν) → List (κ × ν)
  | [] => [(key, f new)]
  | entry :: rest =>
    if key < entry.1 then (key, f new) :: entry :: rest
    else if key = entry.1 then (key, f entry.2) :: rest
    else entry :: updateList key new f rest

/-- What an update can do: it changes the value of a key, or adds the key with the default. -/
theorem updateList_cases (key : κ) (new : ν) (f : ν → ν) {list : List (κ × ν)}
    (ascending : (list.map Prod.fst).Pairwise (· < ·)) :
    ∃ before after old, updateList key new f list = before ++ (key, f old) :: after ∧
      (∀ entry ∈ before, entry.1 < key) ∧ (∀ entry ∈ after, key < entry.1) ∧
      (list = before ++ (key, old) :: after ∨ old = new ∧ list = before ++ after) := by
  induction list with
  | nil => exact ⟨[], [], new, rfl, by simp, by simp, .inr ⟨rfl, rfl⟩⟩
  | cons entry rest ih =>
    rw [List.map_cons, List.pairwise_cons] at ascending
    have behind (other : κ × ν) (found : other ∈ rest) : entry.1 < other.1 :=
      ascending.1 _ (List.mem_map_of_mem found)
    rw [updateList]
    split
    · rename_i less
      refine ⟨[], entry :: rest, new, rfl, by simp, fun other found => ?_, .inr ⟨rfl, rfl⟩⟩
      rcases List.mem_cons.mp found with rfl | found
      · exact less
      · exact less.trans (behind other found)
    · rename_i notLess
      split
      · rename_i same
        exact ⟨[], rest, entry.2, rfl, by simp, fun other found => same ▸ behind other found,
          .inl (by rw [same]; rfl)⟩
      · rename_i different
        obtain ⟨before, after, old, updated, low, high, list⟩ := ih ascending.2
        refine ⟨entry :: before, after, old, by rw [updated]; rfl, fun other found => ?_, high, ?_⟩
        · rcases List.mem_cons.mp found with rfl | found
          · exact lt_of_le_of_ne (not_lt.mp notLess) (Ne.symm different)
          · exact low other found
        · rcases list with list | ⟨same, list⟩
          · exact .inl (by rw [list]; rfl)
          · exact .inr ⟨same, by rw [list]; rfl⟩

/-- An update keeps the keys in ascending order. -/
theorem ascending_updateList (key : κ) (new : ν) (f : ν → ν) {list : List (κ × ν)}
    (ascending : (list.map Prod.fst).Pairwise (· < ·)) :
    ((updateList key new f list).map Prod.fst).Pairwise (· < ·) := by
  obtain ⟨before, after, old, updated, low, high, list⟩ := updateList_cases key new f ascending
  have parts : (before.map Prod.fst).Pairwise (· < ·) ∧ (after.map Prod.fst).Pairwise (· < ·) := by
    rcases list with rfl | ⟨-, rfl⟩
    · rw [List.map_append, List.map_cons, List.pairwise_append, List.pairwise_cons] at ascending
      exact ⟨ascending.1, ascending.2.1.2⟩
    · rw [List.map_append, List.pairwise_append] at ascending
      exact ⟨ascending.1, ascending.2.1⟩
  rw [updated, List.map_append, List.map_cons, List.pairwise_append, List.pairwise_cons]
  refine ⟨parts.1, ⟨fun k found => ?_, parts.2⟩, fun k found k' found' => ?_⟩
  · obtain ⟨entry, there, rfl⟩ := List.mem_map.mp found
    exact high entry there
  · obtain ⟨entry, there, rfl⟩ := List.mem_map.mp found
    rcases List.mem_cons.mp found' with rfl | found'
    · exact low entry there
    · obtain ⟨entry', there', rfl⟩ := List.mem_map.mp found'
      exact (low entry there).trans (high entry' there')

/-- Changes the value of a key, which is a default where the key has none. -/
def update (m : OrderedMap κ ν) (key : κ) (new : ν) (f : ν → ν) : OrderedMap κ ν :=
  ⟨updateList key new f m.entries, ascending_updateList key new f m.ascending⟩

/-- Keeps the values that meet a condition. -/
def filter (m : OrderedMap κ ν) (keep : ν → Bool) : OrderedMap κ ν :=
  ⟨m.entries.filter fun entry => keep entry.2,
    m.ascending.sublist (List.filter_sublist.map Prod.fst)⟩

/-- A value that is in the map is found. -/
theorem find?_of_mem {m : OrderedMap κ ν} {key : κ} {value : ν}
    (found : (key, value) ∈ m.entries) : m.find? key = some value := by
  have first : m.entries.find? (fun entry => entry.1 = key) = some (key, value) := by
    apply List.find?_eq_some_iff_append.mpr
    obtain ⟨before, after, split⟩ := List.append_of_mem found
    refine ⟨decide_eq_true rfl, before, after, split, fun entry there => ?_⟩
    have ascending := m.ascending
    rw [split, List.map_append, List.pairwise_append] at ascending
    have less : entry.1 < key :=
      ascending.2.2 _ (List.mem_map_of_mem there) _ (List.mem_map_of_mem List.mem_cons_self)
    simp [ne_of_lt less]
  unfold find?
  rw [first, Option.map_some]

/-- A value that is found is in the map. -/
theorem mem_of_find? {m : OrderedMap κ ν} {key : κ} {value : ν}
    (found : m.find? key = some value) : (key, value) ∈ m.entries := by
  obtain ⟨entry, first, rfl⟩ := Option.map_eq_some_iff.mp found
  have same := List.find?_some first
  rw [decide_eq_true_eq] at same
  rw [← same]
  exact List.mem_of_find?_eq_some first

/-- A key has a value exactly if it is in the map. -/
theorem exists_find?_iff {m : OrderedMap κ ν} {key : κ} :
    (∃ value, m.find? key = some value) ↔ key ∈ m.keys := by
  unfold keys
  rw [List.mem_map]
  constructor
  · rintro ⟨value, found⟩
    exact ⟨(key, value), mem_of_find? found, rfl⟩
  · rintro ⟨entry, found, rfl⟩
    exact ⟨entry.2, find?_of_mem found⟩

/-- An update adds at most its key. -/
theorem mem_keys_update {m : OrderedMap κ ν} {key k : κ} {new : ν} {f : ν → ν} :
    k ∈ (m.update key new f).keys ↔ k = key ∨ k ∈ m.keys := by
  obtain ⟨before, after, old, updated, -, -, list⟩ := updateList_cases key new f m.ascending
  have entries : (m.update key new f).entries = before ++ (key, f old) :: after := updated
  unfold keys
  rw [entries]
  rcases list with list | ⟨-, list⟩
  · rw [list]
    simp only [List.map_append, List.map_cons, List.mem_append, List.mem_cons]
    tauto
  · rw [list]
    simp only [List.map_append, List.map_cons, List.mem_append, List.mem_cons]
    tauto

/-- A key without a value is not in the map. -/
theorem find?_eq_none {m : OrderedMap κ ν} {key : κ} (missing : key ∉ m.keys) :
    m.find? key = none := by
  cases value : m.find? key with
  | none => rfl
  | some value' => exact absurd (exists_find?_iff.mp ⟨value', value⟩) missing

/-- An update gives its key the changed value. -/
theorem find?_update_self (m : OrderedMap κ ν) (key : κ) (new : ν) (f : ν → ν) :
    (m.update key new f).find? key = some (f ((m.find? key).getD new)) := by
  obtain ⟨before, after, old, updated, low, high, list⟩ :=
    updateList_cases key new f m.ascending
  have found : (key, f old) ∈ (m.update key new f).entries := by
    show _ ∈ updateList key new f m.entries
    rw [updated]
    simp
  rw [find?_of_mem found]
  rcases list with list | ⟨rfl, list⟩
  · have there : (key, old) ∈ m.entries := by rw [list]; simp
    rw [find?_of_mem there, Option.getD_some]
  · have missing : key ∉ m.keys := by
      unfold keys
      rw [list, List.map_append, List.mem_append, List.mem_map, List.mem_map]
      rintro (⟨entry, there, same⟩ | ⟨entry, there, same⟩)
      · exact ne_of_lt (low entry there) same
      · exact ne_of_gt (high entry there) same
    rw [find?_eq_none missing, Option.getD_none]

/-- An update leaves the other values alone. -/
theorem find?_update_of_ne (m : OrderedMap κ ν) {key k : κ} (other : k ≠ key) (new : ν)
    (f : ν → ν) : (m.update key new f).find? k = m.find? k := by
  obtain ⟨before, after, old, updated, -, -, list⟩ := updateList_cases key new f m.ascending
  have same (value : ν) : (k, value) ∈ (m.update key new f).entries ↔ (k, value) ∈ m.entries := by
    show _ ∈ updateList key new f m.entries ↔ _
    rw [updated]
    rcases list with list | ⟨-, list⟩ <;> rw [list] <;> simp [other]
  apply Option.ext
  intro value
  exact ⟨fun found => find?_of_mem ((same value).mp (mem_of_find? found)),
    fun found => find?_of_mem ((same value).mpr (mem_of_find? found))⟩

/-! ## Maps to lists -/

/-- The elements of the lists in a map. -/
def items (m : OrderedMap κ (List ω)) : List ω := m.entries.flatMap Prod.snd

/-- Appending an element to the list of a key adds it to the elements. -/
theorem items_push (m : OrderedMap κ (List ω)) (key : κ) (item : ω) :
    (m.update key [] (· ++ [item])).items.Perm (item :: m.items) := by
  obtain ⟨before, after, old, updated, -, -, list⟩ :=
    updateList_cases key [] (· ++ [item]) m.ascending
  have entries : (m.update key [] (· ++ [item])).entries =
      before ++ (key, old ++ [item]) :: after := updated
  have middle : (before.flatMap Prod.snd ++ (old ++ [item] ++ after.flatMap Prod.snd)).Perm
      (item :: (before.flatMap Prod.snd ++ (old ++ after.flatMap Prod.snd))) := by
    rw [List.append_assoc, List.singleton_append, ← List.append_assoc, ← List.append_assoc]
    exact List.perm_middle
  unfold items
  rw [entries, List.flatMap_append, List.flatMap_cons]
  rcases list with list | ⟨rfl, list⟩
  · rw [list, List.flatMap_append, List.flatMap_cons]
    exact middle
  · rw [list, List.flatMap_append]
    exact middle

/-- Lists without elements can be left out. -/
theorem items_filter (m : OrderedMap κ (List ω)) :
    (m.filter fun list => !list.isEmpty).items = m.items := by
  have lists (list : List (κ × List ω)) :
      (list.filter fun entry => !entry.2.isEmpty).flatMap Prod.snd = list.flatMap Prod.snd := by
    induction list with
    | nil => rfl
    | cons entry rest ih =>
      obtain ⟨key, list⟩ := entry
      cases list with
      | nil =>
        rw [List.filter_cons_of_neg (by simp), List.flatMap_cons, List.nil_append]
        exact ih
      | cons item list =>
        rw [List.filter_cons_of_pos (by simp), List.flatMap_cons, List.flatMap_cons]
        exact congrArg _ ih
  exact lists m.entries

/-- The elements are those of the lists of the keys. -/
theorem mem_items {m : OrderedMap κ (List ω)} {item : ω} :
    item ∈ m.items ↔ ∃ key list, m.find? key = some list ∧ item ∈ list := by
  unfold items
  rw [List.mem_flatMap]
  constructor
  · rintro ⟨⟨key, list⟩, found, there⟩
    exact ⟨key, list, find?_of_mem found, there⟩
  · rintro ⟨key, list, found, there⟩
    exact ⟨(key, list), mem_of_find? found, there⟩

end OrderedMap
