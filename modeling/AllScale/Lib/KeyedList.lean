import Mathlib.Data.List.Perm.Lattice
import Mathlib.Tactic.Common

/-!
# Lists of keyed entries

Entries are gathered in a list with at most one entry of every key. An entry whose key is there
already is combined with the one that is found, every other one is appended. What a combination
holds is what its parts hold, so in the end every entry holds what the inputs of its key hold.
-/

namespace KeyedList

variable {ε κ α : Type} [DecidableEq κ]

/-- Combines the first entry of the same key with a new one, or appends the new one. -/
def absorb (key : ε → κ) (combine : ε → ε → ε) (cur : ε) : List ε → List ε
  | [] => [cur]
  | entry :: entries =>
    if key entry = key cur then combine entry cur :: entries
    else entry :: absorb key combine cur entries

/-- Gathers entries, from the last one to the first. -/
def gather (key : ε → κ) (combine : ε → ε → ε) (inputs : List ε) : List ε :=
  inputs.foldr (absorb key combine) []

variable {key : ε → κ} {combine : ε → ε → ε} {cur entry : ε} {entries inputs : List ε}

/-- When a combination has the key of its first part, absorbing adds at most one key. -/
theorem map_key_absorb (keeps : ∀ a b, key (combine a b) = key a) (cur : ε) (entries : List ε) :
    (absorb key combine cur entries).map key =
      if key cur ∈ entries.map key then entries.map key else entries.map key ++ [key cur] := by
  induction entries with
  | nil => rfl
  | cons first entries ih =>
    rw [absorb]
    by_cases same : key first = key cur
    · rw [if_pos same, List.map_cons, keeps, List.map_cons, if_pos]
      rw [same]
      exact List.mem_cons_self
    · rw [if_neg same, List.map_cons, ih, List.map_cons]
      simp only [List.mem_cons, Ne.symm same, false_or]
      split <;> rfl

/-- The keys stay different. -/
theorem nodup_absorb (keeps : ∀ a b, key (combine a b) = key a) (cur : ε)
    (nodup : (entries.map key).Nodup) : ((absorb key combine cur entries).map key).Nodup := by
  rw [map_key_absorb keeps]
  split
  · exact nodup
  · rename_i fresh
    exact List.nodup_append.mpr ⟨nodup, List.nodup_singleton _, fun k found k' last => by
      rintro rfl
      rw [List.mem_singleton.mp last] at found
      exact fresh found⟩

/-- An entry after absorbing is an old one of another key, or a combination with the new one, or
the new one when there is none of its key. -/
theorem mem_absorb (nodup : (entries.map key).Nodup) :
    entry ∈ absorb key combine cur entries ↔
      (entry ∈ entries ∧ key entry ≠ key cur) ∨
      (∃ old ∈ entries, key old = key cur ∧ entry = combine old cur) ∨
      (entry = cur ∧ key cur ∉ entries.map key) := by
  induction entries with
  | nil => simp [absorb]
  | cons first entries ih =>
    obtain ⟨fresh, nodup⟩ := List.nodup_cons.mp nodup
    have others (old : ε) (found : old ∈ entries) : key old ≠ key first := fun same =>
      fresh (same ▸ List.mem_map_of_mem found)
    rw [absorb]
    by_cases same : key first = key cur
    · rw [if_pos same, List.mem_cons]
      constructor
      · rintro (rfl | found)
        · exact .inr (.inl ⟨first, List.mem_cons_self, same, rfl⟩)
        · exact .inl ⟨List.mem_cons_of_mem _ found, same ▸ others entry found⟩
      · rintro (⟨found, different⟩ | ⟨old, found, sameOld, rfl⟩ | ⟨-, missing⟩)
        · rcases List.mem_cons.mp found with rfl | found
          · exact absurd same different
          · exact .inr found
        · rcases List.mem_cons.mp found with rfl | found
          · exact .inl rfl
          · exact absurd (sameOld.trans same.symm) (others old found)
        · exact absurd (List.mem_cons.mpr (.inl same.symm)) missing
    · rw [if_neg same, List.mem_cons, ih nodup]
      simp only [List.mem_cons, List.map_cons, Ne.symm same, false_or, exists_eq_or_imp, same,
        false_and]
      constructor
      · rintro (rfl | ⟨found, different⟩ | rest)
        · exact .inl ⟨.inl rfl, same⟩
        · exact .inl ⟨.inr found, different⟩
        · exact .inr rest
      · rintro (⟨rfl | found, different⟩ | rest)
        · exact .inl rfl
        · exact .inr (.inl ⟨found, different⟩)
        · exact .inr (.inr rest)

/-- What is found after absorbing: under the key of the new entry its combination with the old one,
or the entry itself, and under every other key what was found before. -/
theorem find?_absorb (keeps : ∀ a b, key (combine a b) = key a) (cur : ε) (entries : List ε)
    (k : κ) : (absorb key combine cur entries).find? (fun entry => key entry = k) =
      if key cur = k then
        some (((entries.find? fun entry => key entry = k).map (combine · cur)).getD cur)
      else entries.find? fun entry => key entry = k := by
  induction entries with
  | nil =>
    rw [absorb, List.find?_cons]
    by_cases here : key cur = k <;> simp [here]
  | cons first entries ih =>
    rw [absorb]
    by_cases same : key first = key cur
    · rw [if_pos same, List.find?_cons, keeps, List.find?_cons, ← same]
      by_cases here : key first = k <;> simp [here]
    · rw [if_neg same, List.find?_cons, ih, List.find?_cons]
      by_cases here : key first = k
      · have other : key cur ≠ k := fun found => same (here.trans found.symm)
        simp [here, other]
      · simp [here]

/-- Gathering one more entry absorbs it. -/
theorem gather_cons (cur : ε) (inputs : List ε) :
    gather key combine (cur :: inputs) = absorb key combine cur (gather key combine inputs) := rfl

/-- Every key is gathered once. -/
theorem nodup_gather (keeps : ∀ a b, key (combine a b) = key a) (inputs : List ε) :
    ((gather key combine inputs).map key).Nodup := by
  induction inputs with
  | nil => exact List.nodup_nil
  | cons cur inputs ih => exact nodup_absorb keeps cur ih

/-- The keys that are gathered are those of the inputs. -/
theorem mem_map_key_gather (keeps : ∀ a b, key (combine a b) = key a) (inputs : List ε) (k : κ) :
    k ∈ (gather key combine inputs).map key ↔ k ∈ inputs.map key := by
  induction inputs with
  | nil => rfl
  | cons cur inputs ih =>
    rw [gather_cons, map_key_absorb keeps, List.map_cons, List.mem_cons, ← ih]
    split
    · rename_i there
      exact ⟨.inr, fun found => found.elim (fun same => same ▸ there) id⟩
    · rw [List.mem_append, List.mem_singleton, or_comm]

/-- When a combination holds what its parts hold, a gathered entry holds what the inputs of its key
hold. -/
theorem holds_gather (keeps : ∀ a b, key (combine a b) = key a) (holds : ε → α → Prop)
    (joins : ∀ a b x, holds (combine a b) x ↔ holds a x ∨ holds b x)
    (gathered : entry ∈ gather key combine inputs) (x : α) :
    holds entry x ↔ ∃ input ∈ inputs, key input = key entry ∧ holds input x := by
  induction inputs generalizing entry with
  | nil => exact absurd gathered List.not_mem_nil
  | cons cur inputs ih =>
    rw [gather_cons, mem_absorb (nodup_gather keeps inputs)] at gathered
    simp only [List.mem_cons, exists_eq_or_imp]
    rcases gathered with ⟨found, different⟩ | ⟨old, found, same, rfl⟩ | ⟨rfl, fresh⟩
    · rw [ih found]
      simp [Ne.symm different]
    · rw [joins, ih found, keeps, or_comm]
      simp [same]
    · have missing : ¬ ∃ input ∈ inputs, key input = key entry ∧ holds input x := by
        rintro ⟨input, found, same, -⟩
        exact fresh ((mem_map_key_gather keeps inputs _).mpr (same ▸ List.mem_map_of_mem found))
      simp [missing]

/-- What a combination takes from its first part comes from an input of the same key. -/
theorem kept_gather (keeps : ∀ a b, key (combine a b) = key a) {kept : ε → α}
    (first : ∀ a b, kept (combine a b) = kept a)
    (gathered : entry ∈ gather key combine inputs) :
    ∃ input ∈ inputs, key input = key entry ∧ kept input = kept entry := by
  induction inputs generalizing entry with
  | nil => exact absurd gathered List.not_mem_nil
  | cons cur inputs ih =>
    rw [gather_cons, mem_absorb (nodup_gather keeps inputs)] at gathered
    rcases gathered with ⟨found, -⟩ | ⟨old, found, -, rfl⟩ | ⟨rfl, -⟩
    · obtain ⟨input, there, same⟩ := ih found
      exact ⟨input, List.mem_cons_of_mem _ there, same⟩
    · obtain ⟨input, there, same⟩ := ih found
      rw [keeps, first]
      exact ⟨input, List.mem_cons_of_mem _ there, same⟩
    · exact ⟨entry, List.mem_cons_self, rfl, rfl⟩

omit [DecidableEq κ] in
/-- Lists of different keys whose entries are determined by a view have the same views up to their
order when the same views occur. -/
theorem perm_map_of_nodup {β : Type} {view : ε → β} (ofView : β → κ)
    (keyed : ∀ a, ofView (view a) = key a) {entries entries' : List ε}
    (nodup : (entries.map key).Nodup) (nodup' : (entries'.map key).Nodup)
    (same : ∀ v, v ∈ entries.map view ↔ v ∈ entries'.map view) :
    (entries.map view).Perm (entries'.map view) := by
  have distinct {entries : List ε} (nodup : (entries.map key).Nodup) :
      (entries.map view).Nodup := by
    apply List.Nodup.of_map ofView
    rw [List.map_map]
    have composed : ofView ∘ view = key := funext keyed
    rwa [composed]
  exact (List.perm_ext_iff_of_nodup (distinct nodup) (distinct nodup')).mpr same

end KeyedList
