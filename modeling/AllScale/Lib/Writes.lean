import Mathlib.Algebra.BigOperators.Group.List.Basic

/-!
# Writes to the members of a list

A list stands for a vector of which single members are written. What a write leaves as it is, what a
loop of writes comes to, and how a sum over the list changes.
-/

namespace Writes

variable {ι α M : Type}

/-- A member that is set to itself. -/
theorem set_eq_self {list : List α} {k : Nat} {a : α} (found : list[k]? = some a) :
    list.set k a = list := by
  obtain ⟨inside, here⟩ := List.getElem?_eq_some_iff.mp found
  rw [← here, List.set_getElem_self]

/-- A member that is set and then modified. -/
theorem modify_set (list : List α) (k : Nat) (a : α) (f : α → α) :
    (list.set k a).modify k f = list.set k (f a) := by
  refine List.ext_getElem? fun i => ?_
  rw [List.getElem?_modify]
  by_cases here : k = i
  · subst here
    rw [List.getElem?_set_self', List.getElem?_set_self']
    cases list[k]? <;> simp
  · rw [List.getElem?_set_ne here, List.getElem?_set_ne here]
    cases list[i]? <;> simp [here]

/-- A sum over a list of which one member changes. -/
theorem sum_map_set [AddCommMonoid M] (f : α → M) {list : List α} {k : Nat} {a : α}
    (found : list[k]? = some a) (b : α) :
    ((list.set k b).map f).sum + f a = (list.map f).sum + f b := by
  have inside := (List.getElem?_eq_some_iff.mp found).1
  have here : a = list[k] := (List.getElem?_eq_some_iff.mp found).2.symm
  have old : list = list.take k ++ a :: list.drop (k + 1) := by
    rw [here, List.getElem_cons_drop, List.take_append_drop]
  have new : list.set k b = list.take k ++ b :: list.drop (k + 1) :=
    List.set_eq_take_append_cons_drop.trans (if_pos inside)
  rw [new]
  conv_rhs => rw [old]
  simp only [List.map_append, List.map_cons, List.sum_append, List.sum_cons]
  ac_rfl

/-- A write to a vector; there is no result outside of it. -/
def writeAt (vector : List α) (i : Nat) (value : α) : Option (List α) :=
  if i < vector.length then some (vector.set i value) else none

/-- The writes of a loop all have to be inside of the vector. -/
theorem foldlM_writeAt (index : ι → Nat) (value : ι → α) (items : List ι) (vector : List α) :
    items.foldlM (fun vector o => writeAt vector (index o) (value o)) vector =
      if ∀ o ∈ items, index o < vector.length then
        some (items.foldl (fun vector o => vector.set (index o) (value o)) vector) else none := by
  induction items generalizing vector with
  | nil => simp
  | cons o items ih =>
    rw [List.foldlM_cons, writeAt]
    by_cases inside : index o < vector.length
    · rw [if_pos inside, Option.bind_eq_bind, Option.bind_some, ih, List.length_set]
      simp only [List.forall_mem_cons, inside, true_and, List.foldl_cons]
    · rw [if_neg inside, if_neg fun all => inside (all o List.mem_cons_self)]
      rfl

variable {index : ι → Nat} {value : ι → α}

/-- The writes do not change the length of the vector. -/
theorem length_foldl_set (items : List ι) (vector : List α) :
    (items.foldl (fun vector o => vector.set (index o) (value o)) vector).length =
      vector.length := by
  induction items generalizing vector with
  | nil => rfl
  | cons o items ih => rw [List.foldl_cons, ih, List.length_set]

/-- A member was there before or has been written. -/
theorem mem_foldl_set {items : List ι} {vector : List α} {a : α}
    (found : a ∈ items.foldl (fun vector o => vector.set (index o) (value o)) vector) :
    a ∈ vector ∨ ∃ o ∈ items, a = value o := by
  induction items generalizing vector with
  | nil => exact .inl found
  | cons first items ih =>
    rcases ih found with found | ⟨o, there, same⟩
    · rcases List.mem_or_eq_of_mem_set found with found | same
      · exact .inl found
      · exact .inr ⟨first, List.mem_cons_self, same⟩
    · exact .inr ⟨o, List.mem_cons_of_mem _ there, same⟩

/-- What no write is for stays. -/
theorem getElem?_foldl_set_of_notMem {items : List ι} {vector : List α} {i : Nat}
    (fresh : ∀ o ∈ items, index o ≠ i) :
    (items.foldl (fun vector o => vector.set (index o) (value o)) vector)[i]? = vector[i]? := by
  induction items generalizing vector with
  | nil => rfl
  | cons o items ih =>
    obtain ⟨other, fresh⟩ := List.forall_mem_cons.mp fresh
    rw [List.foldl_cons, ih fresh, List.getElem?_set_ne other]

/-- What is written stays when no two writes are for the same place. -/
theorem getElem?_foldl_set (value : ι → α) {items : List ι} (vector : List α)
    (distinct : (items.map index).Nodup) {o : ι} (found : o ∈ items)
    (inside : index o < vector.length) :
    (items.foldl (fun vector o => vector.set (index o) (value o)) vector)[index o]? =
      some (value o) := by
  induction items generalizing vector with
  | nil => cases found
  | cons first items ih =>
    obtain ⟨fresh, distinct⟩ := List.nodup_cons.mp distinct
    rw [List.foldl_cons]
    rcases List.mem_cons.mp found with rfl | found
    · have other (o' : ι) (there : o' ∈ items) : index o' ≠ index o := fun same =>
        fresh (List.mem_map.mpr ⟨o', there, same⟩)
      rw [getElem?_foldl_set_of_notMem other, List.getElem?_set_self inside]
    · exact ih _ distinct found (by rwa [List.length_set])

end Writes
