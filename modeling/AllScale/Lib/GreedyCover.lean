import Mathlib.Algebra.Order.BigOperators.Group.Finset
import Mathlib.Order.Interval.Finset.Defs

/-!
# Greedy covers by intervals

Every element of a linear order has a cell, an interval that begins with it. A set is covered
greedily: again and again the first of its elements that is not covered is picked, and its cell is
covered with it. The picked cells are disjoint. They cover no more than the set if it can be tiled
by cells, for then the tiles are what is picked.
-/

namespace GreedyCover

variable {α : Type} [LinearOrder α]

/-- The cells are intervals, and those of the elements to be covered begin with them. -/
structure Cells (cell : α → Finset α) (wanted : α → Prop) : Prop where
  /-- An element to be covered is in its cell. -/
  self_mem : ∀ {a}, wanted a → a ∈ cell a
  /-- Nothing in a cell is before its element. -/
  le_of_mem : ∀ {a b}, b ∈ cell a → a ≤ b
  /-- There are no gaps in a cell. -/
  convex : ∀ {a b c}, c ∈ cell a → a ≤ b → b ≤ c → b ∈ cell a

/-- A set is divided into the cells of the tiles. -/
structure Tiling (cell : α → Finset α) (wanted : α → Prop) (tiles : Finset α) : Prop where
  /-- The tiles cover the set. -/
  covers : ∀ a, wanted a → ∃ tile ∈ tiles, a ∈ cell tile
  /-- They cover nothing else. -/
  inside : ∀ tile ∈ tiles, ∀ a ∈ cell tile, wanted a
  /-- No two tiles overlap. -/
  disjoint : ∀ first ∈ tiles, ∀ second ∈ tiles, ∀ a ∈ cell first, a ∈ cell second → first = second

/-- What is picked: the first element that is not covered, one after the other. -/
inductive Picks (cell : α → Finset α) (wanted : α → Prop) : List α → Prop
  | nil : Picks cell wanted []
  | pick {picked : List α} {a : α} : Picks cell wanted picked → wanted a →
      (∀ p ∈ picked, a ∉ cell p) → (∀ b < a, wanted b → ∃ p ∈ picked, b ∈ cell p) →
      Picks cell wanted (picked ++ [a])

variable {cell : α → Finset α} {wanted : α → Prop} {picked : List α} {a b p q : α}

/-- Only elements to be covered are picked. -/
theorem Picks.wanted_of_mem (picks : Picks cell wanted picked) (mem : p ∈ picked) : wanted p := by
  induction picks with
  | nil => exact absurd mem List.not_mem_nil
  | pick _ own _ _ ih =>
    rcases List.mem_append.mp mem with before | last
    · exact ih before
    · rw [List.mem_singleton.mp last]
      exact own

/-- All elements to be covered that are before a picked one are covered. -/
theorem Picks.covered_of_lt (picks : Picks cell wanted picked) (mem : p ∈ picked) (less : b < p)
    (own : wanted b) : ∃ q ∈ picked, b ∈ cell q := by
  induction picks with
  | nil => exact absurd mem List.not_mem_nil
  | @pick picked a _ _ _ covered ih =>
    have earlier : ∃ q ∈ picked, b ∈ cell q := by
      rcases List.mem_append.mp mem with before | last
      · exact ih before
      · exact covered b (List.mem_singleton.mp last ▸ less) own
    obtain ⟨q, memQ, inside⟩ := earlier
    exact ⟨q, List.mem_append_left _ memQ, inside⟩

/-- The cell of a picked element ends before the next element that is picked. -/
theorem Cells.lt_of_not_mem (cells : Cells cell wanted) (outside : a ∉ cell p) (le : p ≤ a)
    (mem : b ∈ cell p) : b < a := by
  by_contra notLess
  exact outside (cells.convex mem le (not_lt.mp notLess))

/-- Everything that has been picked is before an element that is not covered. -/
theorem Picks.lt_of_not_mem (cells : Cells cell wanted) (picks : Picks cell wanted picked)
    (own : wanted a) (outside : ∀ p ∈ picked, a ∉ cell p) (mem : p ∈ picked) : p < a := by
  rcases lt_trichotomy p a with less | same | greater
  · exact less
  · exact absurd (cells.self_mem own) (same ▸ outside p mem)
  · obtain ⟨q, memQ, inside⟩ := picks.covered_of_lt mem greater own
    exact absurd inside (outside q memQ)

/-- Nothing is picked twice. -/
theorem Picks.nodup (cells : Cells cell wanted) (picks : Picks cell wanted picked) :
    picked.Nodup := by
  induction picks with
  | nil => exact List.nodup_nil
  | pick earlier own outside _ ih =>
    refine List.nodup_append.mpr ⟨ih, List.nodup_singleton _, fun p mem q last same => ?_⟩
    rw [List.mem_singleton.mp last] at same
    exact (earlier.lt_of_not_mem cells own outside mem).ne same

/-- The picked cells do not overlap. -/
theorem Picks.disjoint (cells : Cells cell wanted) (picks : Picks cell wanted picked)
    (memP : p ∈ picked) (memQ : q ∈ picked) (inP : b ∈ cell p) (inQ : b ∈ cell q) : p = q := by
  induction picks with
  | nil => exact absurd memP List.not_mem_nil
  | @pick picked a earlier own outside _ ih =>
    have apart : ∀ p ∈ picked, b ∈ cell p → b ∉ cell a := by
      intro p mem inside inLast
      have before := earlier.lt_of_not_mem cells own outside mem
      have less := cells.lt_of_not_mem (outside p mem) before.le inside
      exact absurd (cells.le_of_mem inLast) (not_le.mpr less)
    rcases List.mem_append.mp memP with before | last
    · rcases List.mem_append.mp memQ with before' | last'
      · exact ih before before'
      · rw [List.mem_singleton.mp last'] at inQ
        exact absurd inQ (apart p before inP)
    · rw [List.mem_singleton.mp last] at inP ⊢
      rcases List.mem_append.mp memQ with before' | last'
      · exact absurd inP (apart q before' inQ)
      · exact (List.mem_singleton.mp last').symm

/-- Where the set can be tiled, tiles are picked. -/
theorem Picks.mem_tiles (cells : Cells cell wanted) {tiles : Finset α}
    (tiling : Tiling cell wanted tiles) (picks : Picks cell wanted picked) (mem : p ∈ picked) :
    p ∈ tiles := by
  induction picks generalizing p with
  | nil => exact absurd mem List.not_mem_nil
  | @pick picked a earlier own outside covered ih =>
    rcases List.mem_append.mp mem with before | last
    · exact ih before
    · rw [List.mem_singleton.mp last]
      obtain ⟨tile, memTile, inside⟩ := tiling.covers a own
      have le : tile ≤ a := cells.le_of_mem inside
      have selfMem : tile ∈ cell tile := cells.convex inside le_rfl le
      rcases le.lt_or_eq with less | same
      · -- a tile that begins before is covered already, by itself
        have needed := tiling.inside tile memTile tile selfMem
        obtain ⟨q, memQ, inQ⟩ := covered tile less needed
        have itself := tiling.disjoint tile memTile q (ih memQ) tile selfMem inQ
        exact absurd (itself ▸ inside) (outside q memQ)
      · exact same ▸ memTile

/-- What is picked is a tiling if nothing is left over and nothing else covered. -/
theorem Picks.tiling (cells : Cells cell wanted) (picks : Picks cell wanted picked)
    (covered : ∀ a, wanted a → ∃ p ∈ picked, a ∈ cell p)
    (inside : ∀ p ∈ picked, ∀ a ∈ cell p, wanted a) : Tiling cell wanted picked.toFinset where
  covers a own := by
    obtain ⟨p, mem, inCell⟩ := covered a own
    exact ⟨p, List.mem_toFinset.mpr mem, inCell⟩
  inside p mem := inside p (List.mem_toFinset.mp mem)
  disjoint p memP q memQ _ inP inQ :=
    picks.disjoint cells (List.mem_toFinset.mp memP) (List.mem_toFinset.mp memQ) inP inQ

/-- The elements that are covered are counted cell by cell. -/
theorem Picks.card_biUnion (cells : Cells cell wanted) (picks : Picks cell wanted picked) :
    (picked.toFinset.biUnion cell).card = ∑ p ∈ picked.toFinset, (cell p).card := by
  apply Finset.card_biUnion
  intro p memP q memQ different
  refine Finset.disjoint_left.mpr fun b inP inQ => different ?_
  exact picks.disjoint cells (List.mem_toFinset.mp memP) (List.mem_toFinset.mp memQ) inP inQ

/-- If no more elements are covered than picked, every cell is that of its element only. -/
theorem Picks.card_eq_one (cells : Cells cell wanted) (picks : Picks cell wanted picked)
    (few : (picked.toFinset.biUnion cell).card ≤ picked.length) (mem : p ∈ picked) :
    (cell p).card = 1 := by
  have nonempty : ∀ q ∈ picked.toFinset, 1 ≤ (cell q).card := by
    intro q memQ
    have own := picks.wanted_of_mem (List.mem_toFinset.mp memQ)
    exact Finset.card_pos.mpr ⟨q, cells.self_mem own⟩
  have count : ∑ q ∈ picked.toFinset, (cell q).card ≤ ∑ _q ∈ picked.toFinset, 1 := by
    rw [← picks.card_biUnion cells, ← Finset.card_eq_sum_ones,
      List.toFinset_card_of_nodup (picks.nodup cells)]
    exact few
  have same := le_antisymm (Finset.sum_le_sum nonempty) count
  exact ((Finset.sum_eq_sum_iff_of_le nonempty).mp same p (List.mem_toFinset.mpr mem)).symm

end GreedyCover
