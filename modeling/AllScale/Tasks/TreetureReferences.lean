import Mathlib.Data.List.InsertIdx
import AllScale.Lib.Positions
import AllScale.Lib.Run
import AllScale.Tasks.TreetureValues

/-!
# Treetures as references

Seen through their shared states, treetures are plain references to cells that are written once:
saving a treeture sends the reference, loading it receives the reference, and all that is behind it,
the components and their ids, cannot be seen.
-/

namespace AllScale

open Transition

variable {V : Type}

/-! ## References to cells -/

/-- What treetures are for: references to cells that are written once, whatever locality they are
on. -/
structure References (V : Type) where
  cells : List (Option V)
  /-- The cells of the references. One that is not valid has none. -/
  refs : List (Option Nat)
  /-- The cells of the references on their way to another locality. -/
  parcels : List (Option Nat)
  /-- The cells of the futures. -/
  futures : List (Option Nat)

/-- What happens to references. -/
inductive ReferenceAction (V : Type) where
  | make (value : Option V)
  | makeInvalid
  | copy (ref : Nat)
  | send (ref : Nat)
  | receive (parcel : Nat)
  | write (cell : Nat) (value : V)
  | wait (ref : Nat)

namespace References

/-- No references. -/
def empty : References V := ⟨[], [], [], []⟩

/-- One action on references. -/
def step (self : References V) : ReferenceAction V → Option (References V)
  | .make value => some { self with
      cells := self.cells ++ [value]
      refs := self.refs ++ [some self.cells.length] }
  | .makeInvalid => some { self with refs := self.refs ++ [none] }
  | .copy ref => do
    let cell ← self.refs[ref]?
    return { self with refs := self.refs ++ [cell] }
  | .send ref => do
    let cell ← self.refs[ref]?
    return { self with parcels := self.parcels ++ [cell] }
  | .receive parcel => do
    let cell ← self.parcels[parcel]?
    return { self with
      refs := self.refs ++ [cell]
      parcels := self.parcels.eraseIdx parcel }
  | .write cell value =>
    if cell < self.cells.length then
      some { self with cells := setState self.cells cell value }
    else
      none
  | .wait ref => do
    let cell ← (self.refs[ref]?).join
    return { self with futures := self.futures ++ [some cell] }

/-- The runs of references. -/
def referring (V : Type) : System (References V) (ReferenceAction V) where
  start := empty
  step := fun self action self' => self.step action = some self'

/-- References stay where they are, and values that have been written stay. -/
def Stays (before after : References V) : Prop :=
  before.refs <+: after.refs ∧
    ∀ (cell : Nat) (value : V), before.cells[cell]? = some (some value) →
      after.cells[cell]? = some (some value)

/-- Nothing moves when nothing happens. -/
theorem Stays.refl (self : References V) : Stays self self :=
  ⟨List.prefix_rfl, fun _ _ written => written⟩

/-- What stays over two actions. -/
theorem Stays.trans {first second third : References V} (early : Stays first second)
    (late : Stays second third) : Stays first third :=
  ⟨early.1.trans late.1, fun cell value written =>
    late.2 cell value (early.2 cell value written)⟩

/-- No action moves a reference or changes a value that has been written. -/
theorem step_stays {self self' : References V} {action : ReferenceAction V}
    (taken : self.step action = some self') : Stays self self' := by
  have same := (Stays.refl self).2
  cases action with
  | make value =>
    cases taken
    exact ⟨List.prefix_append _ _, fun _ _ => getElem?_append_of_some _⟩
  | makeInvalid =>
    cases taken
    exact ⟨List.prefix_append _ _, same⟩
  | copy ref =>
    simp only [step, Option.bind_eq_bind, Option.bind_eq_some_iff] at taken
    obtain ⟨cell, -, taken⟩ := taken
    cases taken
    exact ⟨List.prefix_append _ _, same⟩
  | send ref =>
    simp only [step, Option.bind_eq_bind, Option.bind_eq_some_iff] at taken
    obtain ⟨cell, -, taken⟩ := taken
    cases taken
    exact ⟨List.prefix_rfl, same⟩
  | receive parcel =>
    simp only [step, Option.bind_eq_bind, Option.bind_eq_some_iff] at taken
    obtain ⟨cell, -, taken⟩ := taken
    cases taken
    exact ⟨List.prefix_append _ _, same⟩
  | write cell value =>
    simp only [step] at taken
    split at taken
    · cases taken
      exact ⟨List.prefix_rfl, fun _ _ written => Treetures.setState_values written cell value⟩
    · cases taken
  | wait ref =>
    simp only [step, Option.bind_eq_bind, Option.bind_eq_some_iff] at taken
    obtain ⟨cell, -, taken⟩ := taken
    cases taken
    exact ⟨List.prefix_rfl, same⟩

end References

namespace Treetures

variable {self self' : Treetures V} {action : TreetureAction V}

/-- The shared state to which a treeture on its way leads. -/
def parcelTarget (self : Treetures V) (parcel : Option Nat) : Option Nat :=
  parcel.bind (self.lcos[·]?)

/-- The shared state for which a future waits. -/
def awaited (self : Treetures V) : TreetureFuture V → Option Nat
  | .shared state => some state
  | .remote id _ => self.lcos[id]?

/-- The treetures as references. -/
def view (self : Treetures V) : References V where
  cells := self.states
  refs := self.handles.map self.target
  parcels := self.parcels.map self.parcelTarget
  futures := self.futures.map self.awaited

/-- What an action does to the references, if it does anything. A value is written when it arrives,
and a treeture is sent when its id is. -/
def visible (self : Treetures V) : TreetureAction V → Option (ReferenceAction V)
  | .create => some (.make none)
  | .createReady value => some (.make (some value))
  | .createInvalid => some .makeInvalid
  | .copy handle => some (.copy handle)
  | .save handle => (self.handles[handle]?).bind fun t =>
    if t.sharedState ≠ none ∧ t.id = none then none else some (.send handle)
  | .store call => (self.saves[call]?).map fun made => .send made.1
  | .load parcel => some (.receive parcel)
  | .setValue handle value => (self.handles[handle]?).bind fun t =>
    t.sharedState.map fun state => .write state value
  | .arrive message => (self.messages[message]?).bind fun sent =>
    (self.lcos[sent.1]?).map fun state => .write state sent.2
  | .getFuture handle => some (.wait handle)
  | .answer _ => none

/-- A treeture leads to the same shared state after an action. -/
theorem target_mono {t : Treeture} (leads : Leads self t) (grows : Extends self self') :
    self'.target t = self.target t := by
  unfold target
  cases t.sharedState with
  | some state => rfl
  | none =>
    cases has : t.id with
    | none => rfl
    | some id =>
      obtain ⟨state, component, -⟩ := leads.id id has
      exact (grows.lcos id state component).trans component.symm

/-- The references stay where they are. -/
theorem map_target (sound : Sound self) (grows : Extends self self') :
    self.handles.map self'.target = self.handles.map self.target :=
  List.map_congr_left fun t member => target_mono (sound.handles t member) grows

/-- The references on their way stay where they are. -/
theorem map_parcelTarget (sound : Sound self) (grows : Extends self self') :
    self.parcels.map self'.parcelTarget = self.parcels.map self.parcelTarget := by
  refine List.map_congr_left fun parcel member => ?_
  cases parcel with
  | none => rfl
  | some id =>
    have component := List.getElem?_eq_getElem (sound.parcels _ member id rfl)
    exact (grows.lcos id _ component).trans component.symm

/-- The futures wait for what they wait for. -/
theorem map_awaited (sound : Sound self) (grows : Extends self self') :
    self.futures.map self'.awaited = self.futures.map self.awaited := by
  refine List.map_congr_left fun f member => ?_
  obtain ⟨state, awaits⟩ := sound.futures f member
  cases awaits with
  | shared made => rfl
  | remote component result => exact (grows.lcos _ _ component).trans component.symm

/-- What a treeture that is saved is read back as leads where the treeture leads. -/
theorem parcelTarget_id {t : Treeture} {state : Nat} (shared : t.sharedState = some state)
    {id : Nat} (component : self.lcos[id]? = some state) :
    self.parcelTarget (some id) = self.target t :=
  component.trans (target_of_shared shared).symm

/-- A treeture that `save` writes is read back as one that leads where it leads. -/
theorem parcelTarget_of_saved {t : Treeture} (leads : Leads self t)
    (saved : t.sharedState = none ∨ t.id ≠ none) : self.parcelTarget t.id = self.target t := by
  cases shared : t.sharedState with
  | none =>
    simp only [target, shared]
    rfl
  | some state =>
    obtain ⟨id, has⟩ := Option.ne_none_iff_exists'.mp (saved.resolve_left (by simp [shared]))
    obtain ⟨state', component, same⟩ := leads.id id has
    cases same state shared
    rw [has]
    exact parcelTarget_id shared component

/-- An action that is seen does to the references what it is seen as. -/
theorem step_view (sound : Sound self) (change : Change self action self')
    {seen : ReferenceAction V} (shown : self.visible action = some seen) :
    self.view.step seen = some self'.view := by
  have at_ref {handle : Nat} {t : Treeture} (found : self.handles[handle]? = some t) :
      (self.handles.map self.target)[handle]? = some (self.target t) := by
    rw [List.getElem?_map, found]
    rfl
  cases change with
  | create =>
    cases shown
    simp only [view, References.step, List.map_append]
    rfl
  | createReady value =>
    cases shown
    simp only [view, References.step, List.map_append]
    rfl
  | createInvalid =>
    cases shown
    simp only [view, References.step, List.map_append]
    rfl
  | copy found =>
    cases shown
    simp only [view, References.step, List.map_append, at_ref found]
    rfl
  | make found shared unsaved =>
    simp [visible, found, shared, unsaved] at shown
  | @save handle t found saved =>
    have same := parcelTarget_of_saved (sound.handles _ (List.mem_of_getElem? found)) saved
    have other : ¬(t.sharedState ≠ none ∧ t.id = none) := by
      rintro ⟨shared, unsaved⟩
      exact saved.elim shared fun has => has unsaved
    simp only [visible, found, Option.bind_some, if_neg other] at shown
    cases shown
    simp only [view, References.step, List.map_append, at_ref found, ← same]
    rfl
  | @store call handle id t called found =>
    obtain ⟨state, shared, component⟩ := stored sound called found
    simp only [visible, called] at shown
    cases shown
    have refs : (self.handles.set handle { t with id := some (t.id.getD id) }).map self.target =
        self.handles.map self.target := by
      rw [List.map_set]
      refine set_of_getElem? ((at_ref found).trans ?_)
      simp only [target, shared]
    simp only [view, References.step, List.map_append, at_ref found]
    rw [← refs, ← parcelTarget_id shared component]
    rfl
  | load found =>
    cases shown
    simp only [view, References.step, List.map_append, List.getElem?_map, found, List.eraseIdx_map]
    rfl
  | setValue value found shared =>
    have made := (sound.handles _ (List.mem_of_getElem? found)).shared _ shared
    simp only [visible, found, Option.bind_some, shared, Option.map_some] at shown
    cases shown
    exact if_pos made
  | send value found shared has =>
    simp [visible, found, shared] at shown
  | arrive found component =>
    have made := sound.lcos _ (List.mem_of_getElem? component)
    simp only [visible, found, Option.bind_some, component, Option.map_some] at shown
    cases shown
    exact if_pos made
  | share found shared =>
    cases shown
    simp only [view, References.step, List.map_append, at_ref found, target, shared]
    rfl
  | @ask handle t id found shared has =>
    obtain ⟨state, component, -⟩ := (sound.handles _ (List.mem_of_getElem? found)).id id has
    have leads : self.target t = some state := (target_of_id shared has).trans component
    cases shown
    simp only [view, References.step, List.map_append, at_ref found, leads, Option.join_some,
      Option.bind_eq_bind, Option.bind_some]
    rw [← component]
    rfl
  | answer found component there => cases shown

/-- An action that is not seen leaves the references as they are. -/
theorem view_of_idle (sound : Sound self) (change : Change self action self')
    (hidden : self.visible action = none) : self'.view = self.view := by
  have grows := extends_change change
  cases change with
  | make found shared unsaved =>
    simp only [view]
    rw [map_target sound grows, map_parcelTarget sound grows, map_awaited sound grows]
  | save found saved =>
    simp only [visible, found, Option.bind_some] at hidden
    split at hidden
    · rename_i unsaved
      exact absurd unsaved.2 (saved.resolve_left unsaved.1)
    · cases hidden
  | store called found => simp [visible, called] at hidden
  | setValue value found shared => simp [visible, found, shared] at hidden
  | send value found shared has => rfl
  | arrive found component => simp [visible, found, component] at hidden
  | @answer future id state value found component there =>
    simp only [view, List.map_set]
    congr 1
    exact set_of_getElem? (by rw [List.getElem?_map, found]; rfl)
  | _ => cases hidden

/-! ## All runs -/

/-- The result of a future, when it has one. -/
def result (self : Treetures V) : TreetureFuture V → Option V
  | .shared state => (self.states[state]?).join
  | .remote _ result => result

/-- What treetures are after a run. -/
structure WriteOnce (history : List (Treetures V × TreetureAction V)) (all : Treetures V) :
    Prop where
  /-- The run is one of references to cells that are written once. -/
  refers : ∃ seen, (References.referring V).Run seen all.view ∧
    seen.map Prod.snd = history.filterMap fun taken => taken.1.visible taken.2
  /-- A treeture leads where it led at any time before, and a value that was set is the value. -/
  stays : ∀ taken ∈ history, taken.1.view.Stays all.view
  /-- A value that is set has been given by one of the treetures that lead there. -/
  source : ∀ state value, all.states[state]? = some (some value) →
    ∃ taken ∈ history, Gives taken.1 taken.2 state value
  /-- A value that was given has been set, or has come second, or is on its way. -/
  given : ∀ taken ∈ history, ∀ state value, Gives taken.1 taken.2 state value →
    Served all state value
  /-- A future waits for a shared state, and its result is the value of this state. -/
  reads : ∀ f ∈ all.futures, ∃ state, state < all.states.length ∧ all.awaited f = some state ∧
    ∀ value, all.result f = some value → all.states[state]? = some (some value)
  /-- A treeture that is valid has a shared state, and can be set and waited for. -/
  serves : ∀ handle t, all.handles[handle]? = some t → t.valid = true →
    (∃ state, state < all.states.length ∧ all.target t = some state) ∧
    (∀ value, ∃ after, all.step (.setValue handle value) = some after) ∧
    ∃ after, all.step (.getFuture handle) = some after
  /-- A value that is on its way can arrive. -/
  arrives : ∀ message sent, all.messages[message]? = some sent →
    ∃ after, all.step (.arrive message) = some after
  /-- A treeture that is being saved can be sent. -/
  stores : ∀ call made, all.saves[call]? = some made →
    ∃ after, all.step (.store call) = some after
  /-- A future gets the value once it is set. -/
  answers : ∀ future id state value, all.futures[future]? = some (.remote id none) →
    all.awaited (.remote id none) = some state → all.states[state]? = some (some value) →
    all.step (.answer future) =
      some { all with futures := all.futures.set future (.remote id (some value)) }

/-- A valid treeture leads to a shared state, and can be set and waited for. -/
theorem serves_of_sound (sound : Sound self) {handle : Nat} {t : Treeture}
    (found : self.handles[handle]? = some t) (valid : t.valid = true) :
    (∃ state, state < self.states.length ∧ self.target t = some state) ∧
    (∀ value, ∃ after, self.step (.setValue handle value) = some after) ∧
    ∃ after, self.step (.getFuture handle) = some after := by
  have leads := sound.handles t (List.mem_of_getElem? found)
  simp only [step, found, Option.bind_eq_bind, Option.bind_some, target]
  cases shared : t.sharedState with
  | some state => exact ⟨⟨state, leads.shared state shared, rfl⟩, fun _ => ⟨_, rfl⟩, _, rfl⟩
  | none =>
    cases has : t.id with
    | none => simp [Treeture.valid, shared, has] at valid
    | some id =>
      obtain ⟨state, component, -⟩ := leads.id id has
      exact ⟨⟨state, sound.lcos state (List.mem_of_getElem? component), component⟩,
        fun _ => ⟨_, rfl⟩, _, rfl⟩

/-- Over every run, treetures are references to cells that are written once. -/
theorem writeOnce_of_run {history : List (Treetures V × TreetureAction V)}
    (run : (handing V).Run history self) : WriteOnce history self := by
  have start : Sound (empty : Treetures V) := by
    constructor <;> exact fun _ member => absurd member List.not_mem_nil
  have keeps {s : Treetures V} {a : TreetureAction V} {s' : Treetures V} (sound : Sound s)
      (taken : s.step a = some s') : Sound s' := sound_change sound (step_change taken)
  have sound : Sound self := run.invariant start keeps
  have accounted : Accounted history self := by
    induction run with
    | start =>
      exact ⟨fun _ _ set => by simp [handing, empty] at set,
        fun _ _ there => absurd there List.not_mem_nil,
        fun _ found => absurd found List.not_mem_nil⟩
    | step earlier taken ih =>
      have before := earlier.invariant start keeps
      exact accounted_change (ih before) before (step_change taken)
  constructor
  · exact run.simulates view visible start keeps rfl
      (fun before taken hidden => view_of_idle before (step_change taken) hidden)
      fun before taken shown => step_view before (step_change taken) shown
  · refine run.since (R := fun before after => before.view.Stays after.view) start keeps
      (fun {s a s'} before taken => ?_) fun early late => early.trans late
    cases shown : s.visible a with
    | none =>
      rw [view_of_idle before (step_change taken) shown]
      exact .refl _
    | some seen => exact References.step_stays (step_view before (step_change taken) shown)
  · exact accounted.values
  · exact accounted.given
  · intro f member
    obtain ⟨state, awaits⟩ := sound.futures f member
    cases awaits with
    | shared made => exact ⟨state, made, rfl, fun value same => Option.join_eq_some_iff.mp same⟩
    | remote component result =>
      exact ⟨state, sound.lcos state (List.mem_of_getElem? component), component, result⟩
  · exact fun _ _ found valid => serves_of_sound sound found valid
  · intro message sent found
    have component := List.getElem?_eq_getElem (sound.messages _ (List.mem_of_getElem? found))
    simp only [step, found, Option.bind_eq_bind, Option.bind_some, component]
    exact ⟨_, rfl⟩
  · intro call made called
    obtain ⟨t, state, found, -, -⟩ := sound.saves _ (List.mem_of_getElem? called)
    simp only [step, called, Option.bind_eq_bind, Option.bind_some, found]
    exact ⟨_, rfl⟩
  · intro future id state value found component set
    simp only [awaited] at component
    simp only [step, found, Option.bind_eq_bind, Option.bind_some, component, set, Option.join_some]
    rfl

/-- A treeture that is saved twice at the same time. The value five that is given on another
locality arrives after seven has been set, and seven is what the future there gets. -/
theorem writeOnce_of_run_two : ∃ (history : List (Treetures Nat × TreetureAction Nat))
    (self : Treetures Nat), self.lcos = [0, 0] ∧ self.states = [some 7] ∧
      self.futures = [.remote 1 (some 7)] ∧ WriteOnce history self := by
  have computed : ∃ self, [.create, .save 0, .save 0, .store 1, .store 0, .load 0, .load 0,
      .getFuture 1, .setValue 1 5, .setValue 0 7, .arrive 0, .answer 0].foldlM step
        (empty : Treetures Nat) = some self ∧ self.lcos = [0, 0] ∧ self.states = [some 7] ∧
          self.futures = [.remote 1 (some 7)] :=
    ⟨_, rfl, rfl, rfl, rfl⟩
  obtain ⟨self, steps, components, value, result⟩ := computed
  obtain ⟨history, run, -⟩ :=
    (System.Run.start (S := handing Nat)).exists_of_foldlM id _ steps
  exact ⟨history, self, components, value, result, writeOnce_of_run run⟩

end Treetures

end AllScale
