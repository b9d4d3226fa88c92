import Mathlib.Tactic.Common

/-!
# Members and their positions

A list that holds what is under way: something is appended when it begins, replaced at its position
while it goes on, and erased when it ends.
-/

namespace Transition

variable {α : Type} {list : List α} {i : Nat} {a b : α}

/-- Members stay when something is appended. -/
theorem getElem?_append_of_some (more : List α) (found : list[i]? = some a) :
    (list ++ more)[i]? = some a := by
  rw [List.getElem?_append_left (List.getElem?_eq_some_iff.mp found).1, found]

/-- A member after something has been appended is old or new. -/
theorem mem_append_singleton {P : α → Prop} (new : P a) :
    ∀ x ∈ list ++ [a], x ∈ list ∨ P x := by
  intro x member
  rcases List.mem_append.mp member with old | here
  · exact .inl old
  · exact .inr (List.mem_singleton.mp here ▸ new)

/-- What is at a position after something has been appended was there or is what is new. -/
theorem getElem?_append_singleton (found : (list ++ [a])[i]? = some b) :
    list[i]? = some b ∨ i = list.length ∧ a = b := by
  rcases Nat.lt_trichotomy i list.length with inside | rfl | outside
  · rw [List.getElem?_append_left inside] at found
    exact .inl found
  · rw [List.getElem?_concat_length] at found
    cases found
    exact .inr ⟨rfl, rfl⟩
  · rw [List.getElem?_eq_none (by rw [List.length_append, List.length_singleton]; omega)] at found
    cases found

/-- A member stays or is what is erased. -/
theorem mem_eraseIdx_or (found : list[i]? = some a) (member : b ∈ list) :
    b ∈ list.eraseIdx i ∨ b = a := by
  obtain ⟨j, there⟩ := List.mem_iff_getElem?.mp member
  by_cases here : j = i
  · subst here
    rw [found] at there
    cases there
    exact .inr rfl
  · exact .inl (List.mem_eraseIdx_iff_getElem?.mpr ⟨j, here, there⟩)

/-- Setting what is there changes nothing. -/
theorem set_of_getElem? (found : list[i]? = some a) : list.set i a = list := by
  obtain ⟨inside, rfl⟩ := List.getElem?_eq_some_iff.mp found
  exact List.set_getElem_self inside

end Transition
