import AllScale.DataItemManager.LookupTermination

/-!
# Lookups agree with ownership

In runs of acquires and lookups nothing is ever left unallocated, so every state is tidy. There
a lookup lists an owned element under the rank of the leaf that owns it, whether it was found in
a cache on the way or at the leaf, and lists nothing else.
-/

namespace AllScale

open TokenTree HierarchyAddress Transition

variable {α V : Type} [DecidableEq α] {k : Nat}

/-- An acquire with its broadcast, or a lookup at a leaf. -/
def Action.AcquireOrLocate : Action α → Prop
  | .acquire _ _ => True
  | .read _ _ => False
  | .locate addr _ => addr.isLeaf = true
  | .task _ _ _ => False

/-- A location info lists each element of a region that a leaf owns once, under the rank of that
leaf, and no other element. -/
structure State.ListsOwners (k : Nat) (s : State α V) (region : Finset α) (info : LocationInfo α) :
    Prop where
  /-- An owned element has one rank. -/
  owned : ∀ x ∈ region, ∀ leaf, InNetwork (2 ^ k) leaf → leaf.isLeaf = true →
    x ∈ (s.index leaf).full → info.ranksOf x = [leaf.rank]
  /-- An element that no leaf owns has no rank. -/
  unowned : ∀ x, (∀ leaf, InNetwork (2 ^ k) leaf → leaf.isLeaf = true →
    x ∉ (s.index leaf).full) → info.ranksOf x = []
  /-- An element that is not requested has no rank. -/
  requested : ∀ x, x ∉ region → info.ranksOf x = []

/-- Caches and lookups agree with what leaves own. -/
structure State.LookupsAgree (k : Nat) (s : State α V) : Prop where
  /-- What is cached for a rank is in `full_` of its leaf. -/
  cached : ∀ addr, InNetwork (2 ^ k) addr → ∀ part ∈ (s.index addr).locationCache.regions,
    part.2 ⊆ (s.index ⟨part.1, 0⟩).full
  /-- Every lookup at a leaf returns. -/
  returns : ∀ leaf region, InNetwork (2 ^ k) leaf → leaf.isLeaf = true →
    ∃ fuel result, s.locate (2 ^ k) fuel leaf region = some result
  /-- What a lookup at a leaf returns are the owners. -/
  owners : ∀ leaf region fuel info s', InNetwork (2 ^ k) leaf → leaf.isLeaf = true →
    s.locate (2 ^ k) fuel leaf region = some (info, s') → s.ListsOwners k region info

namespace State.Tidy

/-- In a tidy state a lookup at any node lists the owners. -/
theorem listsOwners {s s' : State α V} (tidy : s.Tidy k) {addr : HierarchyAddress}
    {region : Finset α} {fuel : Nat} {info : LocationInfo α} (member : InNetwork (2 ^ k) addr)
    (returned : s.locate (2 ^ k) fuel addr region = some (info, s')) :
    s.ListsOwners k region info := by
  have sound := (tidy.cached.locate member returned).2
  refine ⟨fun x wanted leaf node low full => ?_, fun x unowned => ?_, fun x other => ?_⟩
  · have flat : (overlay k).layer leaf = 0 := IndexService.isLeaf_iff.mp low
    obtain ⟨found, listed⟩ := State.locate_complete member (tidy.routed x) node flat full wanted
      returned
    -- every rank under which the element is listed is that of a leaf that owns it
    have owner {rank : Nat} (listed : info.Lists rank x) : rank = leaf.rank := by
      obtain ⟨place, owned⟩ := (sound rank x listed).2
      have same := tidy.routed.exclusive x ⟨rank, 0⟩ leaf place rfl node low owned full
      exact congrArg HierarchyAddress.rank same
    refine LocationInfo.ranksOf_eq_singleton fun rank => ⟨owner, fun same => ?_⟩
    rwa [same, ← owner listed]
  · refine LocationInfo.ranksOf_eq_nil fun rank listed => ?_
    obtain ⟨place, owned⟩ := (sound rank x listed).2
    exact unowned ⟨rank, 0⟩ place rfl owned
  · exact LocationInfo.ranksOf_eq_nil fun rank listed => other (sound rank x listed).1

/-- In a tidy state caches and lookups agree with what leaves own. -/
theorem lookupsAgree {s : State α V} (tidy : s.Tidy k) : s.LookupsAgree k where
  cached addr member part found _ inside :=
    (tidy.cached addr part.1 _ member ⟨part.2, found, inside⟩).2
  returns leaf region member _ := tidy.lookupsEnd leaf region member
  owners _ _ _ _ _ member _ returned := tidy.listsOwners member returned

end State.Tidy

/-- In every run of acquires and of lookups at leaves, caches and lookups agree with what leaves
own. -/
theorem lookups_agree_of_run {history : List (State α V × Action α)} {s : State α V}
    (run : (system α V k).Run history s)
    (only : System.Meets (fun _ action => action.AcquireOrLocate) history) :
    System.Always (State.LookupsAgree k) history s := by
  have tidy : System.Always (State.Tidy k) history s :=
    run.always .initial (fun {s action s'} tidy taken step => ?_) only
  · exact tidy.imp fun _ tidy => tidy.lookupsAgree
  · refine Step.tidy tidy ?_ step
    cases action with
    | task => exact taken.elim
    | _ => trivial

/-- Two localities acquire the same element one after the other, with a lookup between. -/
theorem lookups_agree_of_run_two : ∃ info t,
    (State.initial.acquireReadWrite 2 ⟨0, 0⟩ {0} : State Nat Unit).locate 2 4 ⟨1, 0⟩ {0, 1} =
      some (info, t) ∧
    System.Always (State.LookupsAgree 1)
      [(t, Action.acquire ⟨1, 0⟩ {0}),
        (State.initial.acquireReadWrite 2 ⟨0, 0⟩ {0}, Action.locate ⟨1, 0⟩ {0, 1}),
        (State.initial, Action.acquire ⟨0, 0⟩ {0})]
      (t.acquireReadWrite 2 ⟨1, 0⟩ {0}) := by
  have returns : ((State.initial.acquireReadWrite 2 ⟨0, 0⟩ {0} : State Nat Unit).locate 2 4
      ⟨1, 0⟩ {0, 1}).isSome = true := by decide
  obtain ⟨⟨info, t⟩, returned⟩ := Option.isSome_iff_exists.mp returns
  refine ⟨info, t, returned, lookups_agree_of_run (run_acquire _ _ (.step (run_acquire _ _ .start
    ?_ ?_) (Step.locate ?_ returned)) ?_ ?_) ?_⟩
  · decide
  · decide
  · decide
  · decide
  · decide
  · simp [System.Meets, Action.AcquireOrLocate, HierarchyAddress.isLeaf]

end AllScale
