import Mathlib.Algebra.Order.Ring.Rat
import AllScale.Optimizer.Pareto

/-!
# Dominated configurations

The first entry of every order is put into the frontier without a test, and an entry is only tested
for one of the other measurements. Where entries tie, sorting may put a dominated one first. The
frontier has no dominated entry, for all ways to break ties, exactly if every dominated entry is
beaten strictly in the right measurements.
-/

namespace AllScale

/-! ## Sorting -/

/-- A comparison that `std::sort` accepts. -/
structure StrictWeak {α : Type} (less : α → α → Bool) : Prop where
  /-- Of two elements one is less at most. -/
  asymm : ∀ {a b}, less a b = true → less b a = false
  /-- Elements that are not in the wrong order can be put in a row. -/
  weak : ∀ {a b c}, less b a = false → less c b = false → less c a = false

namespace StrictWeak

variable {α : Type} {less : α → α → Bool} (strictWeak : StrictWeak less)
include strictWeak

/-- No element is less than itself. -/
theorem irrefl (a : α) : less a a = false := by
  cases same : less a a with
  | false => rfl
  | true => exact same.symm.trans (strictWeak.asymm same)

/-- What is less than an element is less than those that the element is not greater than. -/
theorem less_of_less_of_not {a b c : α} (first : less a b = true) (second : less c b = false) :
    less a c = true := by
  cases result : less a c with
  | true => rfl
  | false => exact (strictWeak.weak second result).symm.trans first

/-- What an element is not greater than is less than what the element is less than. -/
theorem less_of_not_of_less {a b c : α} (first : less b a = false) (second : less b c = true) :
    less a c = true := by
  cases result : less a c with
  | true => rfl
  | false => exact (strictWeak.weak result first).symm.trans second

/-- What is less than a lesser element is less. -/
theorem trans {a b c : α} (first : less a b = true) (second : less b c = true) :
    less a c = true :=
  strictWeak.less_of_less_of_not first (strictWeak.asymm second)

end StrictWeak

/-- Comparing keys is accepted. -/
theorem strictWeak_of_key {α κ : Type} [LinearOrder κ] {less : α → α → Bool} (key : α → κ)
    (compares : ∀ a b, less a b = true ↔ key a < key b) : StrictWeak less where
  asymm {a b} first := by
    rw [Bool.eq_false_iff, ne_eq, compares]
    exact lt_asymm ((compares a b).mp first)
  weak {a b c} first second := by
    rw [Bool.eq_false_iff, ne_eq, compares, not_lt] at first second ⊢
    exact first.trans second

namespace StdSort

variable {α : Type}

/-- The result is sorted by the comparisons that `std::sort` accepts. -/
def Sorts (sort : StdSort α) : Prop :=
  ∀ less, StrictWeak less → ∀ list, (sort.sort less list).Pairwise fun a b => less b a = false

/-- A comparison where ties are broken by a preference. -/
def lexicographic (less pref : α → α → Bool) (a b : α) : Bool :=
  less a b || (!less b a && pref a b)

/-- Ties are broken only where neither element is less. -/
theorem lexicographic_iff {less pref : α → α → Bool} {a b : α} :
    lexicographic less pref a b = true ↔
      less a b = true ∨ less b a = false ∧ pref a b = true := by
  unfold lexicographic
  rw [Bool.or_eq_true, Bool.and_eq_true, Bool.not_eq_true']

/-- A sorting that breaks ties by a preference. -/
def tieBreaking (pref : α → α → Bool) : StdSort α where
  sort less list := list.mergeSort (lexicographic less pref)
  perm _ list := list.mergeSort_perm _

variable {pref : α → α → Bool} (total : ∀ a b, pref a b || pref b a)
  (trans : ∀ a b c, pref a b = true → pref b c = true → pref a c = true)
include total trans

/-- Ties are broken by the preference. -/
theorem pairwise_tieBreaking {less : α → α → Bool} (strictWeak : StrictWeak less) (list : List α) :
    ((tieBreaking pref).sort less list).Pairwise fun a b => lexicographic less pref a b = true := by
  refine List.pairwise_mergeSort (fun a b c first second => ?_) (fun a b => ?_) list
  · rw [lexicographic_iff] at first second ⊢
    rcases first with first | ⟨first, prefers⟩
    · refine .inl ?_
      rcases second with second | ⟨second, -⟩
      · exact strictWeak.trans first second
      · exact strictWeak.less_of_less_of_not first second
    · rcases second with second | ⟨second, prefers'⟩
      · exact .inl (strictWeak.less_of_not_of_less first second)
      · exact .inr ⟨strictWeak.weak first second, trans a b c prefers prefers'⟩
  · rw [Bool.or_eq_true, lexicographic_iff, lexicographic_iff]
    cases first : less a b with
    | true => exact .inl (.inl rfl)
    | false =>
      cases second : less b a with
      | true => exact .inr (.inl rfl)
      | false => exact ((Bool.or_eq_true _ _).mp (total a b)).imp (.inr ⟨rfl, ·⟩) (.inr ⟨rfl, ·⟩)

/-- Sorting with preferences is sorting. -/
theorem sorts_tieBreaking : (tieBreaking pref).Sorts := by
  intro less strictWeak list
  refine (pairwise_tieBreaking total trans strictWeak list).imp fun {a b} ordered => ?_
  rcases lexicographic_iff.mp ordered with first | ⟨notGreater, -⟩
  · exact strictWeak.asymm first
  · exact notGreater

omit total trans in
/-- Sorting by insertion is sorting. -/
theorem sorts_insertion : (insertion : StdSort α).Sorts := by
  intro less strictWeak list
  have total : Std.Total fun a b => less b a = false := ⟨fun a b => by
    cases first : less b a with
    | false => exact .inl rfl
    | true => exact .inr (strictWeak.asymm first)⟩
  have trans : IsTrans α fun a b => less b a = false := ⟨fun a b c => strictWeak.weak⟩
  exact List.pairwise_insertionSort _ list

end StdSort

namespace ParetoEntry

variable {F : Type}

/-! ## Rounds -/

/-- An entry is eligible exactly if no entry of the frontier is better. -/
theorem paretoEligible_iff (one : ParetoEntry F → ParetoEntry F → Bool)
    (frontier : List (ParetoEntry F)) (entry : ParetoEntry F) :
    paretoEligible frontier entry one one = true ↔ ∀ m ∈ frontier, one m entry = false := by
  unfold paretoEligible
  rw [List.all_eq_true]
  simp only [List.mem_reverse, Bool.or_self, Bool.not_eq_true']

/-- What a round does: of the sorted entries the first one is put into the frontier, and those that
come behind are if no entry of the frontier is better. -/
structure Admits (better : ParetoEntry F → ParetoEntry F → Bool)
    (sorted frontier next : List (ParetoEntry F)) : Prop where
  /-- No entry is removed. -/
  kept : ∀ e ∈ frontier, e ∈ next
  /-- The first entry is added. -/
  first : ∀ e rest, sorted = e :: rest → e ∈ next
  /-- An entry is added when none before it is better. -/
  admitted : ∀ before e after, sorted = before ++ e :: after →
    (∀ m, m ∈ frontier ∨ m ∈ before → better m e = false) → e ∈ next
  /-- An entry behind the first one is not added when one before it is better. -/
  blocked : ∀ before e after, sorted = before ++ e :: after → before ≠ [] → e ∉ frontier →
    (∃ m, (m ∈ frontier ∨ m ∈ before) ∧ better m e = true) → e ∉ next

/-- In a sorted list the elements that are less come first. -/
theorem mem_before_of_less {less : ParetoEntry F → ParetoEntry F → Bool}
    (strictWeak : StrictWeak less) {list before after : List (ParetoEntry F)} {e x : ParetoEntry F}
    (sorted : list.Pairwise fun a b => less b a = false) (split : list = before ++ e :: after)
    (found : x ∈ list) (first : less x e = true) : x ∈ before := by
  rw [split, List.mem_append, List.mem_cons] at found
  rcases found with found | rfl | found
  · exact found
  · exact nomatch first.symm.trans (strictWeak.irrefl x)
  · rw [split, List.pairwise_append, List.pairwise_cons] at sorted
    exact nomatch first.symm.trans (sorted.2.1.1 x found)

/-- Elements that come first are related to those behind them. -/
theorem related_of_before {r : ParetoEntry F → ParetoEntry F → Prop}
    {list before after : List (ParetoEntry F)} {e m : ParetoEntry F} (sorted : list.Pairwise r)
    (split : list = before ++ e :: after) (found : m ∈ before) : r m e := by
  rw [split, List.pairwise_append] at sorted
  exact sorted.2.2 m found e List.mem_cons_self

/-- In a sorted round an entry is not added when one is less, and when a better one is in the
frontier or less. -/
theorem Admits.not_mem {less better : ParetoEntry F → ParetoEntry F → Bool}
    {sorted loaded next : List (ParetoEntry F)} (admits : Admits better sorted loaded next)
    (strictWeak : StrictWeak less) (ordered : sorted.Pairwise fun a b => less b a = false)
    {e x : ParetoEntry F} (there : e ∈ sorted) (found : x ∈ sorted) (first : less x e = true)
    (fresh : e ∉ loaded)
    (worse : ∃ m, (m ∈ loaded ∨ m ∈ sorted ∧ less m e = true) ∧ better m e = true) :
    e ∉ next := by
  obtain ⟨before, after, split⟩ := List.append_of_mem there
  have earlier {m : ParetoEntry F} (found : m ∈ sorted) (first : less m e = true) : m ∈ before :=
    mem_before_of_less strictWeak ordered split found first
  obtain ⟨m, member, above⟩ := worse
  exact admits.blocked before e after split (List.ne_nil_of_mem (earlier found first)) fresh
    ⟨m, member.imp_right fun both => earlier both.1 both.2, above⟩

/-- In a sorted round an entry is added when neither an entry of the frontier nor one that it is not
less than is better. -/
theorem Admits.mem {less better : ParetoEntry F → ParetoEntry F → Bool}
    {sorted loaded next : List (ParetoEntry F)} (admits : Admits better sorted loaded next)
    (ordered : sorted.Pairwise fun a b => less b a = false) {e : ParetoEntry F} (there : e ∈ sorted)
    (best : ∀ m, m ∈ loaded ∨ m ∈ sorted ∧ less e m = false → better m e = false) : e ∈ next := by
  obtain ⟨before, after, split⟩ := List.append_of_mem there
  refine admits.admitted before e after split fun m member => best m ?_
  refine member.imp_right fun earlier => ⟨split ▸ List.mem_append_left _ earlier, ?_⟩
  exact related_of_before ordered split earlier

/-- Every element of a container is drawn for some random numbers. -/
theorem exists_randomElement {α : Type} {container : List α} {x : α}
    (found : x ∈ container) (fits : container.length ≤ randMax) :
    ∃ draws, (∀ draw ∈ draws, draw ≤ randMax) ∧ randomElement container draws = .ok x := by
  obtain ⟨k, rfl⟩ := List.mem_iff_get.mp found
  have filled : container.length ≠ 0 := fun empty => by
    have inside := k.isLt
    omega
  have divisor : 0 < randMax / container.length := Nat.div_pos fits (Nat.pos_of_ne_zero filled)
  have index : k.val * (randMax / container.length) / (randMax / container.length) = k.val :=
    Nat.mul_div_cancel _ divisor
  refine ⟨[k.val * (randMax / container.length)], fun draw there => ?_, ?_⟩
  · rw [List.mem_singleton.mp there]
    exact (Nat.mul_le_mul_right _ (Nat.le_of_lt k.isLt)).trans (Nat.mul_div_le _ _)
  · have hit : randomIndex container.length (randMax / container.length)
        [k.val * (randMax / container.length)] = some k := by
      unfold randomIndex
      simp only [index, k.isLt, ↓reduceDIte]
    unfold randomElement
    simp only [if_neg filled, if_neg divisor.ne', hit]

variable [LinearOrder F]

/-- One of two entries with different knobs is less. -/
theorem less_of_ne (beyond : F) {x y : ParetoEntry F} (other : x.cKnobs ≠ y.cKnobs) :
    less beyond x y = true ∨ less beyond y x = true := by
  have nodes : x.cKnobs.uNodes ≠ y.cKnobs.uNodes := fun same =>
    other (congrArg InoKnobs.mk same)
  unfold less
  rcases Nat.lt_or_gt_of_ne nodes with first | second
  · exact .inl (if_pos first)
  · exact .inr (if_pos second)

variable [NatCast F] [Add F] [Div F]

/-- All comparisons are accepted by `std::sort`. -/
theorem strictWeak_comparators (index : Nat) :
    StrictWeak ((comparators (F := F)).getD index compareParetoLoad) := by
  have load : StrictWeak (compareParetoLoad (F := F)) :=
    strictWeak_of_key (fun entry => OrderDual.toDual entry.averageLoad) fun a b =>
      decide_eq_true_iff
  match index with
  | 0 => exact load
  | 1 => exact strictWeak_of_key averageTime fun a b => decide_eq_true_iff
  | 2 => exact strictWeak_of_key averageEnergy fun a b => decide_eq_true_iff
  | index + 3 => exact load

/-- A round sorts the entries. -/
theorem frontierRound_sorted (sort : StdSort (ParetoEntry F)) (beyond : F)
    (state : List (ParetoEntry F) × List (ParetoEntry F)) (index : Nat) :
    (frontierRound sort beyond state index).1 =
      sort.sort (comparators.getD index compareParetoLoad) state.1 := by
  unfold frontierRound
  dsimp only
  cases sort.sort (comparators.getD index compareParetoLoad) state.1 <;> rfl

/-- A round admits entries by the comparison after that of the round. -/
theorem frontierRound_admits (sort : StdSort (ParetoEntry F)) (beyond : F)
    {state : List (ParetoEntry F) × List (ParetoEntry F)}
    (distinct : (state.1.map cKnobs).Nodup) (inside : ∀ e ∈ state.2, e ∈ state.1) (index : Nat) :
    Admits (comparators.getD ((index + 1) % 3) compareParetoLoad)
      (frontierRound sort beyond state index).1 state.2
      (frontierRound sort beyond state index).2 := by
  have strictWeak := strictWeak_comparators (F := F) ((index + 1) % 3)
  rw [frontierRound_sorted]
  have perm := sort.perm (comparators.getD index compareParetoLoad) state.1
  unfold frontierRound
  dsimp only
  generalize sort.sort (comparators.getD index compareParetoLoad) state.1 = sorted at perm
  have distinct' : (sorted.map cKnobs).Nodup := (perm.map cKnobs).nodup_iff.mpr distinct
  have apart (x y : ParetoEntry F) (left : x ∈ state.2 ∨ x ∈ sorted)
      (right : y ∈ state.2 ∨ y ∈ sorted) (other : y ≠ x) :
      less beyond x y = true ∨ less beyond y x = true := by
    have there {m : ParetoEntry F} (found : m ∈ state.2 ∨ m ∈ sorted) : m ∈ sorted :=
      found.elim (fun found => perm.mem_iff.mpr (inside m found)) id
    refine less_of_ne beyond fun same => other ?_
    exact (List.inj_on_of_nodup_map distinct' (there left) (there right) same).symm
  cases sorted with
  | nil =>
    have none (before after : List (ParetoEntry F)) (e : ParetoEntry F) :
        [] ≠ before ++ e :: after :=
      (List.append_ne_nil_of_right_ne_nil _ (List.cons_ne_nil _ _)).symm
    exact ⟨fun _ found => found, nofun, fun before e after split => absurd split (none _ _ _),
      fun before e after split => absurd split (none _ _ _)⟩
  | cons best others =>
    have admits := paretoEligible_iff
      ((comparators (F := F)).getD ((index + 1) % 3) compareParetoLoad)
    refine ⟨fun e found => ?_, fun e rest split => ?_, fun before e after split better => ?_,
      fun before e after split nonempty fresh worse => ?_⟩
    · exact OrderedSet.mem_insertAdmitted_of_mem (OrderedSet.mem_insert_of_mem found)
    · obtain ⟨rfl, rfl⟩ := List.cons.inj split
      refine OrderedSet.mem_insertAdmitted_of_mem (OrderedSet.mem_insert_self fun y found => ?_)
      exact apart _ y (.inr List.mem_cons_self) (.inl found)
    · exact OrderedSet.mem_round admits apart (strictWeak.irrefl e) split better
    · exact OrderedSet.not_mem_round admits apart (fun a b c => strictWeak.trans) distinct'.of_map
        split nonempty fresh worse

variable {sort : StdSort (ParetoEntry F)} {beyond : F} {vPast : List (ParetoEntry F)}

/-- The three rounds of `get_best`. -/
theorem frontier_rounds (sort : StdSort (ParetoEntry F)) (beyond : F)
    (distinct : (vPast.map cKnobs).Nodup) :
    ∃ byLoad byTime byEnergy loaded timed, byLoad.Perm vPast ∧ byTime.Perm vPast ∧
      byEnergy.Perm vPast ∧ byLoad = sort.sort compareParetoLoad vPast ∧
      byTime = sort.sort compareParetoTime byLoad ∧
      byEnergy = sort.sort compareParetoEnergy byTime ∧ (∀ e ∈ loaded, e ∈ vPast) ∧
      Admits compareParetoTime byLoad [] loaded ∧ Admits compareParetoEnergy byTime loaded timed ∧
      Admits compareParetoLoad byEnergy timed (frontier sort beyond vPast) := by
  let first := frontierRound sort beyond (vPast, []) 0
  let second := frontierRound sort beyond first 1
  let third := frontierRound sort beyond second 2
  obtain ⟨perm, added, -⟩ := @frontierRound_spec F _ _ _ _ _ sort beyond (vPast, []) 0
  obtain ⟨perm', added', -⟩ := @frontierRound_spec F _ _ _ _ _ sort beyond first 1
  have perm'' := (@frontierRound_spec F _ _ _ _ _ sort beyond second 2).1
  have loaded (e : ParetoEntry F) (found : e ∈ first.2) : e ∈ vPast :=
    (added e found).resolve_right List.not_mem_nil
  have timed (e : ParetoEntry F) (found : e ∈ second.2) : e ∈ vPast :=
    (added' e found).elim perm.mem_iff.mp (loaded e)
  refine ⟨first.1, second.1, third.1, first.2, second.2, perm, perm'.trans perm,
    perm''.trans (perm'.trans perm), frontierRound_sorted _ _ _ 0, frontierRound_sorted _ _ _ 1,
    frontierRound_sorted _ _ _ 2, loaded, ?_, ?_, ?_⟩
  · have nothing : ∀ e ∈ (vPast, ([] : List (ParetoEntry F))).2, e ∈ vPast :=
      fun _ found => absurd found List.not_mem_nil
    exact frontierRound_admits sort beyond distinct nothing 0
  · exact frontierRound_admits sort beyond ((perm.map cKnobs).nodup_iff.mpr distinct)
      (fun e found => perm.mem_iff.mpr (loaded e found)) 1
  · exact frontierRound_admits sort beyond
      (((perm'.trans perm).map cKnobs).nodup_iff.mpr distinct)
      (fun e found => (perm'.trans perm).mem_iff.mpr (timed e found)) 2

/-- An entry is not worse than another one in any measurement, and better in one. -/
def Dominates (x e : ParetoEntry F) : Prop :=
  e.averageLoad ≤ x.averageLoad ∧ x.averageTime ≤ e.averageTime ∧
    x.averageEnergy ≤ e.averageEnergy ∧
    (e.averageLoad < x.averageLoad ∨ x.averageTime < e.averageTime ∨
      x.averageEnergy < e.averageEnergy)

instance decidableDominates (x e : ParetoEntry F) : Decidable (x.Dominates e) :=
  inferInstanceAs (Decidable (_ ∧ _ ∧ _ ∧ _))

/-- An entry that never gets into the frontier: it is beaten in load and time, and it is beaten in
time and energy or in energy by an entry that is the fastest one of those with as much load. -/
def Excluded (vPast : List (ParetoEntry F)) (e : ParetoEntry F) : Prop :=
  (∃ x ∈ vPast, e.averageLoad < x.averageLoad ∧ x.averageTime < e.averageTime) ∧
    ((∃ x ∈ vPast, x.averageTime < e.averageTime ∧ x.averageEnergy < e.averageEnergy) ∨
      ∃ x ∈ vPast, x.averageEnergy < e.averageEnergy ∧
        ∀ y ∈ vPast, x.averageLoad ≤ y.averageLoad → x.averageTime ≤ y.averageTime)

instance decidableExcluded (vPast : List (ParetoEntry F)) (e : ParetoEntry F) :
    Decidable (Excluded vPast e) :=
  inferInstanceAs (Decidable (_ ∧ _))

/-! ## Excluded entries -/

/-- An excluded entry does not get into the frontier. -/
theorem not_mem_frontier (sorts : sort.Sorts) (distinct : (vPast.map cKnobs).Nodup)
    {e : ParetoEntry F} (there : e ∈ vPast) (excluded : Excluded vPast e) :
    e ∉ frontier sort beyond vPast := by
  obtain ⟨byLoad, byTime, byEnergy, loaded, timed, perm, perm', perm'', load, time, energy, -,
    admits, admits', admits''⟩ := frontier_rounds sort beyond distinct
  have strictLoad : StrictWeak (compareParetoLoad (F := F)) := strictWeak_comparators 0
  have strictTime : StrictWeak (compareParetoTime (F := F)) := strictWeak_comparators 1
  have strictEnergy : StrictWeak (compareParetoEnergy (F := F)) := strictWeak_comparators 2
  have ordered := load ▸ sorts _ strictLoad vPast
  have ordered' := time ▸ sorts _ strictTime byLoad
  have ordered'' := energy ▸ sorts _ strictEnergy byTime
  obtain ⟨⟨x, found, more, faster⟩, cheaper⟩ := excluded
  have notLoaded : e ∉ loaded :=
    admits.not_mem strictLoad ordered (perm.mem_iff.mpr there) (perm.mem_iff.mpr found)
      (decide_eq_true more) List.not_mem_nil
      ⟨x, .inr ⟨perm.mem_iff.mpr found, decide_eq_true more⟩, decide_eq_true faster⟩
  have notTimed : e ∉ timed := by
    refine admits'.not_mem strictTime ordered' (perm'.mem_iff.mpr there) (perm'.mem_iff.mpr found)
      (decide_eq_true faster) notLoaded ?_
    rcases cheaper with ⟨y, found', faster', cheaper⟩ | ⟨y, found', cheaper, fastest⟩
    · exact ⟨y, .inr ⟨perm'.mem_iff.mpr found', decide_eq_true faster'⟩, decide_eq_true cheaper⟩
    · refine ⟨y, .inl ?_, decide_eq_true cheaper⟩
      refine admits.mem ordered (perm.mem_iff.mpr found') fun m member => ?_
      obtain ⟨inside, notMore⟩ := member.resolve_left List.not_mem_nil
      have asMuch : y.averageLoad ≤ m.averageLoad := not_lt.mp (of_decide_eq_false notMore)
      exact decide_eq_false (not_lt.mpr (fastest m (perm.mem_iff.mp inside) asMuch))
  obtain ⟨y, found', cheaper⟩ : ∃ y ∈ vPast, y.averageEnergy < e.averageEnergy := by
    rcases cheaper with ⟨y, found', -, cheaper⟩ | ⟨y, found', cheaper, -⟩
    · exact ⟨y, found', cheaper⟩
    · exact ⟨y, found', cheaper⟩
  -- the first entry by load is in the frontier and has more load
  obtain ⟨best, others, same⟩ := List.exists_cons_of_ne_nil
    (List.ne_nil_of_mem (perm.mem_iff.mpr found))
  have most : x.averageLoad ≤ best.averageLoad := by
    rcases List.mem_cons.mp (same ▸ perm.mem_iff.mpr found) with rfl | behind
    · exact le_refl _
    · have notMore := (List.pairwise_cons.mp (same ▸ ordered)).1 x behind
      exact not_lt.mp (of_decide_eq_false notMore)
  exact admits''.not_mem strictEnergy ordered'' (perm''.mem_iff.mpr there)
    (perm''.mem_iff.mpr found') (decide_eq_true cheaper) notTimed
    ⟨best, .inl (admits'.kept best (admits.first best others same)),
      decide_eq_true (lt_of_lt_of_le more most)⟩

/-! ## Other entries -/

/-- Ties are broken in favour of an entry, and then of faster ones. -/
def prefers (e a b : ParetoEntry F) : Bool :=
  a = e || (b ≠ e && decide (a.averageTime ≤ b.averageTime))

/-- What is preferred. -/
theorem prefers_iff {e a b : ParetoEntry F} :
    prefers e a b = true ↔ a = e ∨ b ≠ e ∧ a.averageTime ≤ b.averageTime := by
  unfold prefers
  simp only [Bool.or_eq_true, Bool.and_eq_true, decide_eq_true_eq]

/-- One of two entries is preferred. -/
theorem prefers_total (e a b : ParetoEntry F) : prefers e a b || prefers e b a := by
  rw [Bool.or_eq_true, prefers_iff, prefers_iff]
  by_cases left : a = e
  · exact .inl (.inl left)
  · by_cases right : b = e
    · exact .inr (.inl right)
    · exact (le_total a.averageTime b.averageTime).imp (.inr ⟨right, ·⟩) (.inr ⟨left, ·⟩)

/-- Preferences are transitive. -/
theorem prefers_trans (e a b c : ParetoEntry F) (first : prefers e a b = true)
    (second : prefers e b c = true) : prefers e a c = true := by
  rw [prefers_iff] at first second ⊢
  rcases first with same | ⟨other, first⟩
  · exact .inl same
  · obtain ⟨other', second⟩ := second.resolve_left other
    exact .inr ⟨other', first.trans second⟩

/-- When ties are broken in favour of an entry, only lesser elements come before it. -/
theorem less_of_mem_before {less : ParetoEntry F → ParetoEntry F → Bool}
    (strictWeak : StrictWeak less) {e m : ParetoEntry F} {list before after : List (ParetoEntry F)}
    (split : (StdSort.tieBreaking (prefers e)).sort less list = before ++ e :: after)
    (nodup : list.Nodup) (found : m ∈ before) : less m e = true := by
  have sorted := StdSort.pairwise_tieBreaking (prefers_total e) (prefers_trans e) strictWeak list
  have once := ((StdSort.tieBreaking (prefers e)).perm less list).nodup_iff.mpr nodup
  rw [split, List.nodup_append] at once
  rcases StdSort.lexicographic_iff.mp (related_of_before sorted split found) with first | ⟨-, tie⟩
  · exact first
  · rcases prefers_iff.mp tie with rfl | ⟨other, -⟩
    · exact absurd rfl (once.2.2 m found m List.mem_cons_self)
    · exact absurd rfl other

/-- When ties are broken in favour of faster entries, another entry that gets into the frontier in
the first round is the fastest one of those with as much load. -/
theorem fastest_of_loaded {e m y : ParetoEntry F} {byLoad loaded : List (ParetoEntry F)}
    (perm : byLoad.Perm vPast)
    (load : byLoad = (StdSort.tieBreaking (prefers e)).sort compareParetoLoad vPast)
    (admits : Admits compareParetoTime byLoad [] loaded) (inside : m ∈ vPast) (member : m ∈ loaded)
    (other : m ≠ e) (found : y ∈ vPast) (more : m.averageLoad ≤ y.averageLoad) :
    m.averageTime ≤ y.averageTime := by
  by_contra slower
  have faster : y.averageTime < m.averageTime := not_le.mp slower
  obtain ⟨before, after, split⟩ := List.append_of_mem (perm.mem_iff.mpr inside)
  have earlier : y ∈ before := by
    have position := perm.mem_iff.mpr found
    rw [split, List.mem_append, List.mem_cons] at position
    rcases position with earlier | rfl | later
    · exact earlier
    · exact absurd faster (lt_irrefl _)
    · have sorted := load ▸ StdSort.pairwise_tieBreaking (prefers_total e) (prefers_trans e)
        (strictWeak_comparators (F := F) 0) vPast
      rw [split, List.pairwise_append, List.pairwise_cons] at sorted
      rcases StdSort.lexicographic_iff.mp (sorted.2.1.1 y later) with greater | ⟨-, tie⟩
      · exact absurd (of_decide_eq_true greater) (not_lt.mpr more)
      · rcases prefers_iff.mp tie with same | ⟨-, notFaster⟩
        · exact absurd same other
        · exact absurd faster (not_lt.mpr notFaster)
  exact admits.blocked before m after split (List.ne_nil_of_mem earlier) List.not_mem_nil
    ⟨y, .inr earlier, decide_eq_true faster⟩ member

/-- An entry that is not excluded gets into the frontier when ties are broken in its favour. -/
theorem mem_frontier (distinct : (vPast.map cKnobs).Nodup) {e : ParetoEntry F} (there : e ∈ vPast)
    (notExcluded : ¬ Excluded vPast e) :
    e ∈ frontier (.tieBreaking (prefers e)) beyond vPast := by
  obtain ⟨byLoad, byTime, byEnergy, loaded, timed, perm, perm', perm'', load, time, energy, inside,
    admits, admits', admits''⟩ := frontier_rounds (.tieBreaking (prefers e)) beyond distinct
  have strictLoad : StrictWeak (compareParetoLoad (F := F)) := strictWeak_comparators 0
  have strictTime : StrictWeak (compareParetoTime (F := F)) := strictWeak_comparators 1
  have kept : e ∈ loaded ∨ e ∈ timed → e ∈ frontier (.tieBreaking (prefers e)) beyond vPast := by
    rintro (found | found)
    · exact admits''.kept e (admits'.kept e found)
    · exact admits''.kept e found
  by_cases beaten : ∃ x ∈ vPast, e.averageLoad < x.averageLoad ∧ x.averageTime < e.averageTime
  · -- the entry is not beaten in energy when the entries are sorted by time
    refine kept (.inr ?_)
    obtain ⟨before, after, split⟩ := List.append_of_mem (perm'.mem_iff.mpr there)
    refine admits'.admitted before e after split fun m member => decide_eq_false fun cheaper => ?_
    refine notExcluded ⟨beaten, ?_⟩
    rcases member with member | member
    · refine .inr ⟨m, inside m member, cheaper, fun y found more => ?_⟩
      have other : m ≠ e := by
        rintro rfl
        exact lt_irrefl _ cheaper
      exact fastest_of_loaded perm load admits (inside m member) member other found more
    · have first := less_of_mem_before strictTime (time ▸ split)
        (perm.nodup_iff.mpr distinct.of_map) member
      have found : m ∈ vPast := perm'.mem_iff.mp (split ▸ List.mem_append_left _ member)
      exact .inl ⟨m, found, of_decide_eq_true first, cheaper⟩
  · -- the entry is not beaten in time when the entries are sorted by load
    refine kept (.inl ?_)
    obtain ⟨before, after, split⟩ := List.append_of_mem (perm.mem_iff.mpr there)
    refine admits.admitted before e after split fun m member => decide_eq_false fun faster => ?_
    have earlier := member.resolve_left List.not_mem_nil
    have first := less_of_mem_before strictLoad (load ▸ split) distinct.of_map earlier
    have found : m ∈ vPast := perm.mem_iff.mp (split ▸ List.mem_append_left _ earlier)
    exact beaten ⟨m, found, of_decide_eq_true first, faster⟩

/-! ## The best configuration -/

/-- For every history that is not empty and every sorting, `get_best` draws the configuration of an
entry of the frontier, and every one of them may be drawn. For all ways to sort, the frontier has no
dominated entry exactly if all dominated entries are excluded. -/
theorem getBest_undominated_iff (beyond : F) (filled : vPast ≠ [])
    (distinct : (vPast.map cKnobs).Nodup) :
    (∀ sort : StdSort (ParetoEntry F),
      (∀ draws, Draws (fun knobs => ∃ chosen ∈ frontier sort beyond vPast, knobs = chosen.cKnobs)
        (getBest sort beyond vPast draws)) ∧
      ∀ chosen ∈ frontier sort beyond vPast, chosen ∈ vPast ∧
        ((frontier sort beyond vPast).length ≤ randMax →
          ∃ draws, (∀ draw ∈ draws, draw ≤ randMax) ∧
            getBest sort beyond vPast draws = .ok chosen.cKnobs)) ∧
    ((∀ sort : StdSort (ParetoEntry F), sort.Sorts →
        ∀ chosen ∈ frontier sort beyond vPast, ∀ x ∈ vPast, ¬ x.Dominates chosen) ↔
      ∀ e ∈ vPast, (∃ x ∈ vPast, x.Dominates e) → Excluded vPast e) := by
  refine ⟨fun sort => ?_, fun undominated e there dominated => ?_,
    fun excluded sort sorts chosen member x found dominates => ?_⟩
  · obtain ⟨inside, nonempty⟩ := frontier_spec sort beyond vPast
    refine ⟨fun draws => ?_, fun chosen member => ⟨inside chosen member, fun fits => ?_⟩⟩
    · exact (draws_randomElement (nonempty filled) draws).bind fun entry found =>
        .pure ⟨entry, found, rfl⟩
    · obtain ⟨draws, range, drawn⟩ := exists_randomElement member fits
      refine ⟨draws, range, ?_⟩
      unfold getBest
      rw [drawn]
      rfl
  · by_contra notExcluded
    obtain ⟨x, found, dominates⟩ := dominated
    exact undominated (.tieBreaking (prefers e))
      (StdSort.sorts_tieBreaking (prefers_total e) (prefers_trans e)) e
      (mem_frontier distinct there notExcluded) x found dominates
  · have inside := (frontier_spec sort beyond vPast).1 chosen member
    exact not_mem_frontier sorts distinct inside (excluded chosen inside ⟨x, found, dominates⟩)
      member

/-- Two entries without ties, of which one is dominated. -/
theorem getBest_undominated_two : ∃ vPast : List (ParetoEntry ℚ),
    vPast = [⟨0, ⟨1⟩, [1], [2], [2]⟩, ⟨1, ⟨2⟩, [3, 3], [1, 1], [1, 1]⟩] ∧
      ∀ sort : StdSort (ParetoEntry ℚ), sort.Sorts →
        ∀ chosen ∈ frontier sort 0 vPast, ∀ x ∈ vPast, ¬ x.Dominates chosen :=
  ⟨_, rfl, (getBest_undominated_iff 0 (by decide) (by decide)).2.mpr (by decide +kernel)⟩

/-- Two entries with the same load, of which the first one is dominated and drawn. -/
theorem not_getBest_undominated :
    let slow : ParetoEntry ℚ := ⟨0, ⟨1⟩, [1], [2], [2]⟩
    let fast : ParetoEntry ℚ := ⟨1, ⟨2⟩, [1, 1], [1, 1], [1, 1]⟩
    StdSort.Sorts (α := ParetoEntry ℚ) .insertion ∧
      getBest .insertion 0 [slow, fast] [0] = .ok slow.cKnobs ∧ fast.Dominates slow := by
  intro slow fast
  exact ⟨StdSort.sorts_insertion, by decide +kernel, by decide +kernel⟩

end ParetoEntry

end AllScale
