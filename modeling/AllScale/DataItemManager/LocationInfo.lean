import Mathlib.Data.Finset.Disjoint
import Mathlib.Data.Finset.SDiff
import Mathlib.Data.Finset.Lattice.Lemmas
import Mathlib.Data.List.Nodup
import Mathlib.Tactic.Common

/-!
# Location information

`location_info` maps ranks to regions. The unordered map of the source is a list of entries
with different ranks, in the order of first insertion; a region is a finite set of elements with
union, intersection and difference for merge, intersect and difference. `Lists` says under which
ranks an element is listed, and each operation has one lemma about it.
-/

namespace AllScale

variable {α : Type}

/-- `location_info` — regions by rank, each rank at most once. -/
structure LocationInfo (α : Type) where
  /-- The entries of the map. -/
  regions : List (Nat × Finset α)
  /-- A map has one entry for a rank. -/
  nodup : (regions.map Prod.fst).Nodup

namespace LocationInfo

/-- The map without entries. -/
def empty : LocationInfo α := ⟨[], List.nodup_nil⟩

/-- An element is listed under a rank. -/
def Lists (info : LocationInfo α) (rank : Nat) (x : α) : Prop :=
  ∃ region, (rank, region) ∈ info.regions ∧ x ∈ region

/-- The empty map lists nothing. -/
@[simp] theorem not_lists_empty (rank : Nat) (x : α) : ¬ (empty : LocationInfo α).Lists rank x := by
  simp [Lists, empty]

variable [DecidableEq α]

/-- The ranks under which an element is listed. -/
def ranksOf (info : LocationInfo α) (x : α) : List Nat :=
  (info.regions.filter fun part => x ∈ part.2).map Prod.fst

/-- `auto& part = regions[rank]; part = Region::merge(part, region);` on the entries. -/
def mergeAt (rank : Nat) (region : Finset α) : List (Nat × Finset α) → List (Nat × Finset α)
  | [] => [(rank, region)]
  | part :: rest =>
    if part.1 = rank then (part.1, part.2 ∪ region) :: rest else part :: mergeAt rank region rest

/-- Merging into an entry adds at most the rank of that entry. -/
theorem mem_keys_mergeAt {rank key : Nat} {region : Finset α} {parts : List (Nat × Finset α)}
    (found : key ∈ (mergeAt rank region parts).map Prod.fst) :
    key = rank ∨ key ∈ parts.map Prod.fst := by
  induction parts with
  | nil => simpa [mergeAt] using found
  | cons part rest ih =>
    rw [mergeAt] at found
    split at found
    · exact Or.inr (by simpa using found)
    · rw [List.map_cons, List.mem_cons] at found ⊢
      rcases found with same | later
      · exact Or.inr (Or.inl same)
      · exact (ih later).imp_right Or.inr

/-- Merging into an entry keeps the ranks different. -/
theorem nodup_mergeAt (rank : Nat) (region : Finset α) {parts : List (Nat × Finset α)}
    (nodup : (parts.map Prod.fst).Nodup) : ((mergeAt rank region parts).map Prod.fst).Nodup := by
  induction parts with
  | nil => simp [mergeAt]
  | cons part rest ih =>
    rw [List.map_cons, List.nodup_cons] at nodup
    rw [mergeAt]
    split
    · rw [List.map_cons, List.nodup_cons]
      exact nodup
    · rename_i different
      rw [List.map_cons, List.nodup_cons]
      refine ⟨fun found => ?_, ih nodup.2⟩
      rcases mem_keys_mergeAt found with same | inside
      · exact different same
      · exact nodup.1 inside

/-- `location_info::add_part`. -/
def addPart (info : LocationInfo α) (rank : Nat) (region : Finset α) : LocationInfo α :=
  ⟨mergeAt rank region info.regions, nodup_mergeAt rank region info.nodup⟩

/-- The loop `for (auto& part: other.regions) info.add_part(part.first, part.second);`. -/
def addParts (info other : LocationInfo α) : LocationInfo α :=
  other.regions.foldl (fun info part => info.addPart part.1 part.2) info

/-- What `update` does to one entry. -/
def updatePart (region : Finset α) (part : Nat × Finset α) : Nat × Finset α :=
  if part.2 ∩ region = ∅ then part else (part.1, part.2 \ region)

/-- The region `updated` that the loop of `update` collects. -/
def updatedRegion (region : Finset α) (parts : List (Nat × Finset α)) : Finset α :=
  parts.foldl (fun updated part =>
    if part.2 ∩ region = ∅ then updated else updated ∪ (part.2 ∩ region)) ∅

/-- Reducing the entries keeps their ranks. -/
theorem keys_updatePart (region : Finset α) (parts : List (Nat × Finset α)) :
    (parts.map (updatePart region)).map Prod.fst = parts.map Prod.fst := by
  rw [List.map_map]
  refine List.map_congr_left fun part _ => ?_
  simp only [Function.comp_apply, updatePart]
  split <;> rfl

/-- `location_info::update` — move what is listed of a region to one rank. -/
def update (info : LocationInfo α) (rank : Nat) (region : Finset α) : LocationInfo α :=
  let updated := updatedRegion region info.regions
  let reduced : LocationInfo α :=
    ⟨info.regions.map (updatePart region), by rw [keys_updatePart]; exact info.nodup⟩
  if updated = ∅ then reduced else reduced.addPart rank updated

/-! ## Listed elements -/

/-- Adding a part lists its elements under its rank and changes nothing else. -/
@[simp] theorem lists_addPart {info : LocationInfo α} {rank key : Nat} {region : Finset α} {x : α} :
    (info.addPart rank region).Lists key x ↔ info.Lists key x ∨ key = rank ∧ x ∈ region := by
  obtain ⟨parts, nodup⟩ := info
  simp only [Lists, addPart]
  clear nodup
  induction parts with
  | nil => simp [mergeAt, and_comm]
  | cons part rest ih =>
    obtain ⟨first, old⟩ := part
    rw [mergeAt]
    by_cases same : first = rank
    · subst same
      simp only [↓reduceIte, List.mem_cons, Prod.mk.injEq, or_and_right, exists_or, and_assoc,
        exists_and_left, exists_eq_left, Finset.mem_union, and_or_left]
      exact or_right_comm
    · simp only [same, ↓reduceIte, List.mem_cons, or_and_right, exists_or, ih, or_assoc]

/-- Adding all parts of another map lists what either map lists. -/
@[simp] theorem lists_addParts {info other : LocationInfo α} {key : Nat} {x : α} :
    (info.addParts other).Lists key x ↔ info.Lists key x ∨ other.Lists key x := by
  obtain ⟨parts, nodup⟩ := other
  simp only [addParts]
  rw [show (LocationInfo.mk parts nodup).Lists key x ↔
    ∃ region, (key, region) ∈ parts ∧ x ∈ region from Iff.rfl]
  clear nodup
  induction parts generalizing info with
  | nil => simp
  | cons part rest ih =>
    obtain ⟨first, region⟩ := part
    rw [List.foldl_cons, ih, lists_addPart]
    simp only [List.mem_cons, Prod.mk.injEq, or_and_right, exists_or, and_assoc, exists_and_left,
      exists_eq_left, or_assoc]

/-- The updated region holds the elements of the region that were listed. -/
theorem mem_updatedRegion {region : Finset α} {parts : List (Nat × Finset α)} {x : α} :
    x ∈ updatedRegion region parts ↔ x ∈ region ∧ ∃ part ∈ parts, x ∈ part.2 := by
  suffices general : ∀ start : Finset α,
      x ∈ parts.foldl (fun updated part =>
        if part.2 ∩ region = ∅ then updated else updated ∪ (part.2 ∩ region)) start ↔
      x ∈ start ∨ x ∈ region ∧ ∃ part ∈ parts, x ∈ part.2 by
    simpa [updatedRegion] using general ∅
  induction parts with
  | nil => simp
  | cons part rest ih =>
    intro start
    have drop : (if part.2 ∩ region = ∅ then start else start ∪ (part.2 ∩ region)) =
        start ∪ (part.2 ∩ region) := by
      split <;> simp_all
    rw [List.foldl_cons, drop, ih]
    simp only [Finset.mem_union, Finset.mem_inter, List.mem_cons, exists_eq_or_imp]
    tauto

/-- Updating moves every listed element of the region to the given rank and leaves the other
elements where they are. -/
theorem lists_update {info : LocationInfo α} {rank key : Nat} {region : Finset α} {x : α} :
    (info.update rank region).Lists key x ↔
      info.Lists key x ∧ x ∉ region ∨
        key = rank ∧ x ∈ region ∧ ∃ other, info.Lists other x := by
  have reduced : (∃ old, (key, old) ∈ info.regions.map (updatePart region) ∧ x ∈ old) ↔
      info.Lists key x ∧ x ∉ region := by
    have cut : ∀ part : Nat × Finset α,
        updatePart region part = (part.1, part.2 \ region) := by
      intro part
      rw [updatePart]
      split
      · rename_i apart
        rw [Finset.sdiff_eq_self_of_disjoint (Finset.disjoint_iff_inter_eq_empty.mpr apart)]
      · rfl
    simp only [cut, List.mem_map, Prod.mk.injEq, Lists]
    constructor
    · rintro ⟨old, ⟨⟨first, part⟩, found, rfl, rfl⟩, inside⟩
      exact ⟨⟨part, found, (Finset.mem_sdiff.mp inside).1⟩, (Finset.mem_sdiff.mp inside).2⟩
    · rintro ⟨⟨part, found, inside⟩, outside⟩
      exact ⟨_, ⟨_, found, rfl, rfl⟩, Finset.mem_sdiff.mpr ⟨inside, outside⟩⟩
  have listed : x ∈ updatedRegion region info.regions ↔
      x ∈ region ∧ ∃ other, info.Lists other x := by
    rw [mem_updatedRegion]
    simp only [Lists, Prod.exists]
  simp only [update]
  split
  · rename_i none
    rw [none] at listed
    simp only [Finset.notMem_empty, false_iff] at listed
    rw [show (LocationInfo.mk (info.regions.map (updatePart region)) _).Lists key x ↔ _
      from reduced]
    tauto
  · rw [lists_addPart, listed,
      show (LocationInfo.mk (info.regions.map (updatePart region)) _).Lists key x ↔ _ from reduced]

/-! ## Sequences of updates -/

/-- The regions of different ranks are disjoint. -/
def Apart (info : LocationInfo α) : Prop :=
  ∀ first ∈ info.regions, ∀ second ∈ info.regions, first.1 ≠ second.1 →
    Disjoint first.2 second.2

omit [DecidableEq α] in
/-- Where regions are disjoint, an element is listed under one rank only. -/
theorem apart_iff {info : LocationInfo α} :
    info.Apart ↔ ∀ x first second, info.Lists first x → info.Lists second x → first = second := by
  constructor
  · rintro apart x first second ⟨region, found, inside⟩ ⟨region', found', inside'⟩
    by_contra different
    exact Finset.disjoint_left.mp (apart _ found _ found' different) inside inside'
  · intro single first found second found' different
    apply Finset.disjoint_left.mpr
    intro x inside inside'
    exact different (single x first.1 second.1 ⟨_, found, inside⟩ ⟨_, found', inside'⟩)

/-- The elements of a region have been moved to a rank. -/
structure Relocated (info result : LocationInfo α) (rank : Nat) (region : Finset α) : Prop where
  /-- The regions are disjoint. -/
  apart : result.Apart
  /-- The same elements are listed. -/
  union : ∀ x, (∃ key, result.Lists key x) ↔ ∃ key, info.Lists key x
  /-- What was listed of the region is listed under the rank only. -/
  inside : ∀ x ∈ region, (∃ key, info.Lists key x) → ∀ key, result.Lists key x ↔ key = rank
  /-- The other elements keep their ranks. -/
  outside : ∀ x ∉ region, ∀ key, result.Lists key x ↔ info.Lists key x

/-- An update moves the elements of its region. -/
theorem relocated_update {info : LocationInfo α} (apart : info.Apart) (rank : Nat)
    (region : Finset α) : info.Relocated (info.update rank region) rank region := by
  have inside : ∀ x ∈ region, (∃ key, info.Lists key x) →
      ∀ key, (info.update rank region).Lists key x ↔ key = rank := by
    intro x found listed key
    rw [lists_update]
    constructor
    · rintro (⟨-, outside⟩ | ⟨same, -⟩)
      · exact absurd found outside
      · exact same
    · exact fun same => Or.inr ⟨same, found, listed⟩
  have outside : ∀ x ∉ region, ∀ key,
      (info.update rank region).Lists key x ↔ info.Lists key x := by
    intro x away key
    rw [lists_update]
    constructor
    · rintro (⟨listed, -⟩ | ⟨-, found, -⟩)
      · exact listed
      · exact absurd found away
    · exact fun listed => Or.inl ⟨listed, away⟩
  have union (x : α) : (∃ key, (info.update rank region).Lists key x) ↔
      ∃ key, info.Lists key x := by
    by_cases found : x ∈ region
    · constructor
      · rintro ⟨key, listed⟩
        rcases lists_update.mp listed with before | ⟨-, -, other⟩
        · exact ⟨key, before.1⟩
        · exact other
      · exact fun listed => ⟨rank, (inside x found listed rank).mpr rfl⟩
    · exact exists_congr fun key => outside x found key
  refine ⟨apart_iff.mpr fun x first second one two => ?_, union, inside, outside⟩
  by_cases found : x ∈ region
  · have listed := (union x).mp ⟨first, one⟩
    rw [(inside x found listed first).mp one, (inside x found listed second).mp two]
  · exact apart_iff.mp apart x first second ((outside x found first).mp one)
      ((outside x found second).mp two)

/-- Updates one after the other. -/
def updates (info : LocationInfo α) (moves : List (Nat × Finset α)) : LocationInfo α :=
  moves.foldl (fun info move => info.update move.1 move.2) info

/-- The rank of the last move whose region contains an element, or its original rank. -/
def rankAfter (moves : List (Nat × Finset α)) (original : Nat) (x : α) : Nat :=
  match moves.reverse.find? fun move => x ∈ move.2 with
  | some move => move.1
  | none => original

/-- The first of several moves sets the rank that the others start from. -/
theorem rankAfter_cons (move : Nat × Finset α) (moves : List (Nat × Finset α)) (original : Nat)
    (x : α) : rankAfter (move :: moves) original x =
      rankAfter moves (if x ∈ move.2 then move.1 else original) x := by
  unfold rankAfter
  rw [List.reverse_cons, List.find?_append]
  cases moves.reverse.find? fun move => x ∈ move.2 with
  | some later => rfl
  | none =>
    by_cases found : x ∈ move.2
    · simp [found]
    · simp [found]

/-- Updates move the elements of their regions, and after any sequence of them every listed element
is listed under the rank of the last one whose region contained it, or else under its original
rank. -/
theorem update_relocates {info : LocationInfo α} (apart : info.Apart) :
    (∀ rank region, info.Relocated (info.update rank region) rank region) ∧
      ∀ moves, (info.updates moves).Apart ∧
        ∀ x, ((∃ key, (info.updates moves).Lists key x) ↔ ∃ key, info.Lists key x) ∧
          ∀ original, info.Lists original x →
            ∀ key, (info.updates moves).Lists key x ↔ key = rankAfter moves original x := by
  refine ⟨relocated_update apart, fun moves => ?_⟩
  induction moves generalizing info with
  | nil =>
    refine ⟨apart, fun x => ⟨Iff.rfl, fun original listed key => ⟨fun other => ?_, ?_⟩⟩⟩
    · exact apart_iff.mp apart x key original other listed
    · rintro rfl
      exact listed
  | cons move moves ih =>
    have moved := relocated_update apart move.1 move.2
    obtain ⟨apart', later⟩ := ih moved.apart
    refine ⟨apart', fun x => ⟨(later x).1.trans (moved.union x), fun original listed key => ?_⟩⟩
    rw [rankAfter_cons]
    apply (later x).2
    by_cases found : x ∈ move.2
    · rw [if_pos found]
      exact (moved.inside x found ⟨original, listed⟩ move.1).mpr rfl
    · rw [if_neg found]
      exact (moved.outside x found original).mpr listed

/-- Two ranks with two elements each, of which two are moved to a third one. -/
theorem update_relocates_two :
    let info : LocationInfo Nat := ⟨[(0, {1, 2}), (1, {3, 4})], by decide⟩
    ∀ key, (info.updates [(2, {2, 3}), (0, {3})]).Lists key 3 ↔ key = 0 := by
  intro info
  have apart : info.Apart := by
    unfold Apart
    decide
  exact (((update_relocates apart).2 [(2, {2, 3}), (0, {3})]).2 3).2 1 ⟨{3, 4}, by simp [info]⟩

/-! ## Ranks of an element -/

/-- The ranks of an element are those under which it is listed. -/
theorem mem_ranksOf {info : LocationInfo α} {rank : Nat} {x : α} :
    rank ∈ info.ranksOf x ↔ info.Lists rank x := by
  simp [ranksOf, Lists]

/-- An element listed under one rank only has that rank once. -/
theorem ranksOf_eq_singleton {info : LocationInfo α} {rank : Nat} {x : α}
    (only : ∀ key, info.Lists key x ↔ key = rank) : info.ranksOf x = [rank] := by
  have nodup : (info.ranksOf x).Nodup :=
    info.nodup.sublist (List.filter_sublist.map Prod.fst)
  refine List.perm_singleton.mp ((List.perm_ext_iff_of_nodup nodup (List.nodup_singleton _)).mpr ?_)
  intro key
  rw [mem_ranksOf, only, List.mem_singleton]

/-- An element that is not listed has no rank. -/
theorem ranksOf_eq_nil {info : LocationInfo α} {x : α} (unlisted : ∀ key, ¬ info.Lists key x) :
    info.ranksOf x = [] :=
  List.eq_nil_iff_forall_not_mem.mpr fun key found => unlisted key (mem_ranksOf.mp found)

end LocationInfo

end AllScale
