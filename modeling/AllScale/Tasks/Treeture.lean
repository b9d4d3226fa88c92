import AllScale.Lib.Positions
import AllScale.Lib.Run

/-!
# Treetures

A treeture is a handle for the result of a work item. Where it is made it refers to a shared state;
to other localities it is sent as the id of a component that refers to this state, and the component
is made when the treeture is saved for the first time. A value is set through any of the handles,
directly or by an action on the component, and the first value that is set stays.
-/

namespace AllScale

open Transition

/-- `treeture`. -/
structure Treeture where
  /-- `shared_state_`. -/
  sharedState : Option Nat
  /-- `id_`. -/
  id : Option Nat

/-- `valid`. -/
def Treeture.valid (self : Treeture) : Bool :=
  self.sharedState.isSome || self.id.isSome

/-- What `get_future` returns. -/
inductive TreetureFuture (V : Type) where
  /-- A future of the shared state itself. -/
  | shared (state : Nat)
  /-- The future of `get_state_action`, with the result when it has come. -/
  | remote (id : Nat) (result : Option V)

/-- The treetures of a type, on all localities. -/
structure Treetures (V : Type) where
  /-- `treeture_task` — the shared states, with their values. -/
  states : List (Option V)
  /-- `treeture_lco` — the components, with their shared states. -/
  lcos : List Nat
  handles : List Treeture
  /-- The calls of `save` that have made a component and have not stored its id. -/
  saves : List (Nat × Nat)
  /-- The treetures that have been saved and not been loaded. -/
  parcels : List (Option Nat)
  /-- The actions `set_value_action` that have not arrived. -/
  messages : List (Nat × V)
  futures : List (TreetureFuture V)

/-- What happens to treetures. -/
inductive TreetureAction (V : Type) where
  /-- `treeture(treeture_init_t)`. -/
  | create
  /-- `treeture(U&&)`. -/
  | createReady (value : V)
  /-- `treeture()`. -/
  | createInvalid
  /-- `treeture(treeture<T> const&)`. -/
  | copy (handle : Nat)
  /-- `save`, up to where it has made a component if it makes one. -/
  | save (handle : Nat)
  /-- The rest of `save` after it has made a component. -/
  | store (call : Nat)
  /-- `load`. -/
  | load (parcel : Nat)
  /-- `set_value`. -/
  | setValue (handle : Nat) (value : V)
  /-- `treeture_lco::set_value`. -/
  | arrive (message : Nat)
  /-- `get_future`. -/
  | getFuture (handle : Nat)
  /-- The result of `treeture_lco::get_state` comes. -/
  | answer (future : Nat)

variable {V : Type}

/-- `set_value` of a shared state, where the exception for a second value is ignored. -/
def setState (states : List (Option V)) (state : Nat) (value : V) : List (Option V) :=
  match states[state]? with
  | some none => states.set state (some value)
  | _ => states

namespace Treetures

/-- No treetures. -/
def empty : Treetures V := ⟨[], [], [], [], [], [], []⟩

/-- The shared state to which a treeture leads, directly or by its id. -/
def target (self : Treetures V) (treeture : Treeture) : Option Nat :=
  match treeture.sharedState with
  | some state => some state
  | none => treeture.id.bind (self.lcos[·]?)

theorem target_of_shared {self : Treetures V} {t : Treeture} {state : Nat}
    (shared : t.sharedState = some state) : self.target t = some state := by
  simp only [target, shared]

theorem target_of_id {self : Treetures V} {t : Treeture} {id : Nat} (shared : t.sharedState = none)
    (has : t.id = some id) : self.target t = self.lcos[id]? := by
  simp only [target, shared, has]
  rfl

/-- One action. There is no result where an assertion fails. -/
def step (self : Treetures V) : TreetureAction V → Option (Treetures V)
  | .create => some { self with
      states := self.states ++ [none]
      handles := self.handles ++ [⟨some self.states.length, none⟩] }
  | .createReady value => some { self with
      states := self.states ++ [some value]
      handles := self.handles ++ [⟨some self.states.length, none⟩] }
  | .createInvalid => some { self with handles := self.handles ++ [⟨none, none⟩] }
  | .copy handle => do
    let t ← self.handles[handle]?
    return { self with handles := self.handles ++ [t] }
  | .save handle => do
    let t ← self.handles[handle]?
    match t.sharedState, t.id with
    | some state, none => return { self with
        lcos := self.lcos ++ [state]
        saves := self.saves ++ [(handle, self.lcos.length)] }
    | _, _ => return { self with parcels := self.parcels ++ [t.id] }
  | .store call => do
    let (handle, id) ← self.saves[call]?
    let t ← self.handles[handle]?
    -- another call may have stored its id in the meantime
    let id := t.id.getD id
    return { self with
      handles := self.handles.set handle { t with id := some id }
      saves := self.saves.eraseIdx call
      parcels := self.parcels ++ [some id] }
  | .load parcel => do
    let id ← self.parcels[parcel]?
    return { self with
      handles := self.handles ++ [⟨none, id⟩]
      parcels := self.parcels.eraseIdx parcel }
  | .setValue handle value => do
    let t ← self.handles[handle]?
    match t.sharedState with
    | some state => return { self with states := setState self.states state value }
    | none =>
      let id ← t.id
      return { self with messages := self.messages ++ [(id, value)] }
  | .arrive message => do
    let (id, value) ← self.messages[message]?
    let state ← self.lcos[id]?
    return { self with
      states := setState self.states state value
      messages := self.messages.eraseIdx message }
  | .getFuture handle => do
    let t ← self.handles[handle]?
    match t.sharedState with
    | some state => return { self with futures := self.futures ++ [.shared state] }
    | none =>
      let id ← t.id
      return { self with futures := self.futures ++ [.remote id none] }
  | .answer future =>
    match self.futures[future]? with
    | some (.remote id none) => do
      let state ← self.lcos[id]?
      let value ← (self.states[state]?).join
      return { self with futures := self.futures.set future (.remote id (some value)) }
    | _ => none

/-- The runs of treetures. -/
def handing (V : Type) : System (Treetures V) (TreetureAction V) where
  start := empty
  step := fun self action self' => self.step action = some self'

/-- What an action changes. -/
inductive Change (self : Treetures V) : TreetureAction V → Treetures V → Prop
  | create : Change self .create { self with
      states := self.states ++ [none]
      handles := self.handles ++ [⟨some self.states.length, none⟩] }
  | createReady (value : V) : Change self (.createReady value) { self with
      states := self.states ++ [some value]
      handles := self.handles ++ [⟨some self.states.length, none⟩] }
  | createInvalid : Change self .createInvalid { self with
      handles := self.handles ++ [⟨none, none⟩] }
  | copy {handle : Nat} {t : Treeture} : self.handles[handle]? = some t →
      Change self (.copy handle) { self with handles := self.handles ++ [t] }
  /-- A component is made for a shared state. -/
  | make {handle : Nat} {t : Treeture} {state : Nat} : self.handles[handle]? = some t →
      t.sharedState = some state → t.id = none → Change self (.save handle) { self with
        lcos := self.lcos ++ [state]
        saves := self.saves ++ [(handle, self.lcos.length)] }
  /-- No component has to be made. -/
  | save {handle : Nat} {t : Treeture} : self.handles[handle]? = some t →
      (t.sharedState = none ∨ t.id ≠ none) →
      Change self (.save handle) { self with parcels := self.parcels ++ [t.id] }
  | store {call handle id : Nat} {t : Treeture} : self.saves[call]? = some (handle, id) →
      self.handles[handle]? = some t → Change self (.store call) { self with
        handles := self.handles.set handle { t with id := some (t.id.getD id) }
        saves := self.saves.eraseIdx call
        parcels := self.parcels ++ [some (t.id.getD id)] }
  | load {parcel : Nat} {id : Option Nat} : self.parcels[parcel]? = some id →
      Change self (.load parcel) { self with
        handles := self.handles ++ [⟨none, id⟩]
        parcels := self.parcels.eraseIdx parcel }
  /-- A value is set where the shared state is. -/
  | setValue {handle : Nat} {t : Treeture} {state : Nat} (value : V) :
      self.handles[handle]? = some t → t.sharedState = some state →
      Change self (.setValue handle value) { self with
        states := setState self.states state value }
  /-- A value is sent to the component. -/
  | send {handle : Nat} {t : Treeture} {id : Nat} (value : V) :
      self.handles[handle]? = some t → t.sharedState = none → t.id = some id →
      Change self (.setValue handle value) { self with
        messages := self.messages ++ [(id, value)] }
  | arrive {message id state : Nat} {value : V} : self.messages[message]? = some (id, value) →
      self.lcos[id]? = some state → Change self (.arrive message) { self with
        states := setState self.states state value
        messages := self.messages.eraseIdx message }
  /-- A future of the shared state. -/
  | share {handle : Nat} {t : Treeture} {state : Nat} : self.handles[handle]? = some t →
      t.sharedState = some state → Change self (.getFuture handle) { self with
        futures := self.futures ++ [.shared state] }
  /-- A future of the component. -/
  | ask {handle : Nat} {t : Treeture} {id : Nat} : self.handles[handle]? = some t →
      t.sharedState = none → t.id = some id → Change self (.getFuture handle) { self with
        futures := self.futures ++ [.remote id none] }
  | answer {future id state : Nat} {value : V} :
      self.futures[future]? = some (.remote id none) → self.lcos[id]? = some state →
      self.states[state]? = some (some value) → Change self (.answer future) { self with
        futures := self.futures.set future (.remote id (some value)) }

variable {self self' : Treetures V} {action : TreetureAction V}

/-- Every action is one of these changes. -/
theorem step_change (taken : self.step action = some self') : Change self action self' := by
  cases action with
  | create =>
    cases taken
    exact .create
  | createReady value =>
    cases taken
    exact .createReady value
  | createInvalid =>
    cases taken
    exact .createInvalid
  | copy handle =>
    simp only [step, Option.bind_eq_bind, Option.bind_eq_some_iff] at taken
    obtain ⟨t, found, same⟩ := taken
    cases same
    exact .copy found
  | save handle =>
    simp only [step, Option.bind_eq_bind, Option.bind_eq_some_iff] at taken
    obtain ⟨t, found, taken⟩ := taken
    split at taken
    · rename_i state shared unsaved
      cases taken
      exact .make found shared unsaved
    · rename_i other
      cases taken
      refine .save found ?_
      cases shared : t.sharedState with
      | none => exact .inl rfl
      | some state => exact .inr fun unsaved => other state shared unsaved
  | store call =>
    simp only [step, Option.bind_eq_bind, Option.bind_eq_some_iff] at taken
    obtain ⟨⟨handle, id⟩, called, t, found, same⟩ := taken
    cases same
    exact .store called found
  | load parcel =>
    simp only [step, Option.bind_eq_bind, Option.bind_eq_some_iff] at taken
    obtain ⟨id, found, same⟩ := taken
    cases same
    exact .load found
  | setValue handle value =>
    simp only [step, Option.bind_eq_bind, Option.bind_eq_some_iff] at taken
    obtain ⟨t, found, taken⟩ := taken
    split at taken
    · rename_i state shared
      cases taken
      exact .setValue value found shared
    · rename_i shared
      simp only [Option.bind_eq_some_iff] at taken
      obtain ⟨id, has, same⟩ := taken
      cases same
      exact .send value found shared has
  | arrive message =>
    simp only [step, Option.bind_eq_bind, Option.bind_eq_some_iff] at taken
    obtain ⟨⟨id, value⟩, found, state, component, same⟩ := taken
    cases same
    exact .arrive found component
  | getFuture handle =>
    simp only [step, Option.bind_eq_bind, Option.bind_eq_some_iff] at taken
    obtain ⟨t, found, taken⟩ := taken
    split at taken
    · rename_i state shared
      cases taken
      exact .share found shared
    · rename_i shared
      simp only [Option.bind_eq_some_iff] at taken
      obtain ⟨id, has, same⟩ := taken
      cases same
      exact .ask found shared has
  | answer future =>
    simp only [step, Option.bind_eq_bind] at taken
    split at taken
    · rename_i id found
      simp only [Option.bind_eq_some_iff] at taken
      obtain ⟨state, component, value, there, same⟩ := taken
      cases same
      exact .answer found component (Option.join_eq_some_iff.mp there)
    · cases taken

/-! ## What stays -/

/-- A treeture keeps its shared state, and its id when it has one. -/
def Kept (t t' : Treeture) : Prop :=
  t'.sharedState = t.sharedState ∧ ∀ id, t.id = some id → t'.id = some id

/-- A future keeps what it waits for, and its result when it has come. -/
inductive KeptFuture : TreetureFuture V → TreetureFuture V → Prop
  | shared (state : Nat) : KeptFuture (.shared state) (.shared state)
  | remote (id : Nat) {result result' : Option V} :
      (∀ value, result = some value → result' = some value) →
      KeptFuture (.remote id result) (.remote id result')

/-- What stays when an action happens. -/
structure Extends (before after : Treetures V) : Prop where
  made : before.states.length ≤ after.states.length
  /-- A value that has been set stays. -/
  values : ∀ (state : Nat) (value : V), before.states[state]? = some (some value) →
    after.states[state]? = some (some value)
  lcos : ∀ (id state : Nat), before.lcos[id]? = some state → after.lcos[id]? = some state
  handles : ∀ (handle : Nat) (t : Treeture), before.handles[handle]? = some t →
    ∃ t', after.handles[handle]? = some t' ∧ Kept t t'
  futures : ∀ (future : Nat) (f : TreetureFuture V), before.futures[future]? = some f →
    ∃ f', after.futures[future]? = some f' ∧ KeptFuture f f'

/-- A future that does not change is kept. -/
theorem KeptFuture.refl (f : TreetureFuture V) : KeptFuture f f := by
  cases f with
  | shared state => exact .shared state
  | remote id result => exact .remote id fun _ same => same

/-- Everything stays when nothing happens. -/
theorem Extends.refl (self : Treetures V) : Extends self self where
  made := Nat.le_refl _
  values := fun _ _ found => found
  lcos := fun _ _ found => found
  handles := fun _ t found => ⟨t, found, rfl, fun _ same => same⟩
  futures := fun _ f found => ⟨f, found, .refl f⟩

/-- Setting a value keeps the values that have been set. -/
theorem setState_values {states : List (Option V)} {state : Nat} {value : V}
    (found : states[state]? = some (some value)) (state' : Nat) (value' : V) :
    (setState states state' value')[state]? = some (some value) := by
  unfold setState
  split
  · rename_i unset
    have different : state' ≠ state := by
      rintro rfl
      rw [found] at unset
      cases unset
    rw [List.getElem?_set_ne different, found]
  · exact found

/-- Setting a value makes no shared states. -/
theorem length_setState (states : List (Option V)) (state : Nat) (value : V) :
    (setState states state value).length = states.length := by
  unfold setState
  split
  · exact List.length_set
  · rfl

/-- Handles stay when one is appended. -/
theorem Extends.append_handles (self : Treetures V) (more : List Treeture) :
    ∀ (handle : Nat) (t : Treeture), self.handles[handle]? = some t →
      ∃ t', (self.handles ++ more)[handle]? = some t' ∧ Kept t t' :=
  fun _ t found => ⟨t, getElem?_append_of_some more found, rfl, fun _ same => same⟩

/-- Every action keeps what has been made and set. -/
theorem extends_change (change : Change self action self') : Extends self self' := by
  have same := Extends.refl self
  cases change with
  | create =>
    exact ⟨by simp, fun _ _ => getElem?_append_of_some _, same.lcos,
      Extends.append_handles self _, same.futures⟩
  | createReady value =>
    exact ⟨by simp, fun _ _ => getElem?_append_of_some _, same.lcos,
      Extends.append_handles self _, same.futures⟩
  | createInvalid =>
    exact ⟨same.made, same.values, same.lcos, Extends.append_handles self _, same.futures⟩
  | copy found =>
    exact ⟨same.made, same.values, same.lcos, Extends.append_handles self _, same.futures⟩
  | make found shared unsaved =>
    exact ⟨same.made, same.values, fun _ _ => getElem?_append_of_some _, same.handles,
      same.futures⟩
  | save found saved => exact ⟨same.made, same.values, same.lcos, same.handles, same.futures⟩
  | @store call handle id t called found =>
    refine ⟨same.made, same.values, same.lcos, fun handle' t' found' => ?_, same.futures⟩
    by_cases current : handle = handle'
    · subst current
      rw [found] at found'
      cases found'
      refine ⟨_, List.getElem?_set_self (List.getElem?_eq_some_iff.mp found).1, rfl,
        fun id' has => ?_⟩
      simp only [has, Option.getD_some]
    · exact ⟨t', by rw [List.getElem?_set_ne current, found'], rfl, fun _ has => has⟩
  | load found =>
    exact ⟨same.made, same.values, same.lcos, Extends.append_handles self _, same.futures⟩
  | setValue value found shared =>
    exact ⟨Nat.le_of_eq (length_setState _ _ _).symm, fun _ _ set => setState_values set _ _,
      same.lcos, same.handles, same.futures⟩
  | send value found shared has =>
    exact ⟨same.made, same.values, same.lcos, same.handles, same.futures⟩
  | arrive found component =>
    exact ⟨Nat.le_of_eq (length_setState _ _ _).symm, fun _ _ set => setState_values set _ _,
      same.lcos, same.handles, same.futures⟩
  | share found shared =>
    exact ⟨same.made, same.values, same.lcos, same.handles,
      fun _ f there => ⟨f, getElem?_append_of_some _ there, .refl f⟩⟩
  | ask found shared has =>
    exact ⟨same.made, same.values, same.lcos, same.handles,
      fun _ f there => ⟨f, getElem?_append_of_some _ there, .refl f⟩⟩
  | @answer future id state value found component there =>
    refine ⟨same.made, same.values, same.lcos, same.handles, fun future' f found' => ?_⟩
    by_cases current : future = future'
    · subst current
      rw [found] at found'
      cases found'
      exact ⟨_, List.getElem?_set_self (List.getElem?_eq_some_iff.mp found).1,
        .remote id fun _ absent => by cases absent⟩
    · exact ⟨f, by rw [List.getElem?_set_ne current, found'], .refl f⟩

end Treetures

end AllScale
