import AllScale.Lib.Positions
import AllScale.Tasks.Treeture

/-!
# Values of treetures

Every treeture leads to at most one shared state, directly or by the id of a component, on whatever
locality it is. A value that is given through a treeture reaches this state, and the first value
that arrives is the one that stays.
-/

namespace AllScale

open Transition

namespace Treetures

variable {V : Type} {self self' : Treetures V} {action : TreetureAction V}

/-! ## Where treetures lead -/

/-- A treeture leads to a shared state that exists, and its id to the same one. -/
structure Leads (all : Treetures V) (t : Treeture) : Prop where
  shared : ∀ state, t.sharedState = some state → state < all.states.length
  id : ∀ id, t.id = some id → ∃ state, all.lcos[id]? = some state ∧
    ∀ state', t.sharedState = some state' → state' = state

/-- A future waits for a shared state that exists, and its result is the value of this state. -/
inductive Awaits (self : Treetures V) : TreetureFuture V → Nat → Prop
  | shared {state : Nat} : state < self.states.length → Awaits self (.shared state) state
  | remote {id state : Nat} {result : Option V} : self.lcos[id]? = some state →
      (∀ value, result = some value → self.states[state]? = some (some value)) →
      Awaits self (.remote id result) state

/-- What holds of the treetures on all localities. -/
structure Sound (all : Treetures V) : Prop where
  handles : ∀ t ∈ all.handles, Leads all t
  /-- A component has a shared state. -/
  lcos : ∀ state ∈ all.lcos, state < all.states.length
  /-- A component that has been made for a treeture has its shared state. -/
  saves : ∀ call ∈ all.saves, ∃ t state, all.handles[call.1]? = some t ∧
    t.sharedState = some state ∧ all.lcos[call.2]? = some state
  /-- A treeture that is on its way leads to a component. -/
  parcels : ∀ parcel ∈ all.parcels, ∀ id, parcel = some id → id < all.lcos.length
  /-- A value that is on its way has a component. -/
  messages : ∀ message ∈ all.messages, message.1 < all.lcos.length
  futures : ∀ f ∈ all.futures, ∃ state, Awaits all f state

/-- Where a treeture leads stays. -/
theorem Leads.mono {t : Treeture} (leads : Leads self t) (grows : Extends self self') :
    Leads self' t where
  shared := fun state has => Nat.lt_of_lt_of_le (leads.shared state has) grows.made
  id := fun id has => by
    obtain ⟨state, component, same⟩ := leads.id id has
    exact ⟨state, grows.lcos id state component, same⟩

/-- What a future waits for stays. -/
theorem Awaits.mono {f : TreetureFuture V} {state : Nat} (awaits : Awaits self f state)
    (grows : Extends self self') : Awaits self' f state := by
  cases awaits with
  | shared made => exact .shared (Nat.lt_of_lt_of_le made grows.made)
  | remote component result =>
    exact .remote (grows.lcos _ _ component) fun value same =>
      grows.values _ _ (result value same)

/-- What holds stays, when it holds of what is new. -/
theorem Sound.extend (sound : Sound self) (grows : Extends self self')
    (handles : ∀ t ∈ self'.handles, t ∈ self.handles ∨ Leads self' t)
    (lcos : ∀ state ∈ self'.lcos, state ∈ self.lcos ∨ state < self'.states.length)
    (saves : ∀ call ∈ self'.saves, call ∈ self.saves ∨
      ∃ t state, self'.handles[call.1]? = some t ∧ t.sharedState = some state ∧
        self'.lcos[call.2]? = some state)
    (parcels : ∀ parcel ∈ self'.parcels, parcel ∈ self.parcels ∨
      ∀ id, parcel = some id → id < self'.lcos.length)
    (messages : ∀ message ∈ self'.messages, message ∈ self.messages ∨
      message.1 < self'.lcos.length)
    (futures : ∀ f ∈ self'.futures, f ∈ self.futures ∨ ∃ state, Awaits self' f state) :
    Sound self' := by
  have components {id : Nat} (inside : id < self.lcos.length) : id < self'.lcos.length :=
    (List.getElem?_eq_some_iff.mp (grows.lcos id _ (List.getElem?_eq_getElem inside))).1
  constructor
  · intro t member
    rcases handles t member with old | new
    · exact (sound.handles t old).mono grows
    · exact new
  · intro state member
    rcases lcos state member with old | new
    · exact Nat.lt_of_lt_of_le (sound.lcos state old) grows.made
    · exact new
  · intro call member
    rcases saves call member with old | new
    · obtain ⟨t, state, found, shared, component⟩ := sound.saves call old
      obtain ⟨t', found', same, -⟩ := grows.handles call.1 t found
      exact ⟨t', state, found', same.trans shared, grows.lcos _ _ component⟩
    · exact new
  · intro parcel member
    rcases parcels parcel member with old | new
    · exact fun id has => components (sound.parcels parcel old id has)
    · exact new
  · intro message member
    rcases messages message member with old | new
    · exact components (sound.messages message old)
    · exact new
  · intro f member
    rcases futures f member with old | new
    · obtain ⟨state, awaits⟩ := sound.futures f old
      exact ⟨state, awaits.mono grows⟩
    · exact new

/-- The id that is stored is the one of a component with the shared state of the treeture, whether
or not another call has stored its id before. -/
theorem stored (sound : Sound self) {call handle id : Nat} {t : Treeture}
    (called : self.saves[call]? = some (handle, id)) (found : self.handles[handle]? = some t) :
    ∃ state, t.sharedState = some state ∧ self.lcos[t.id.getD id]? = some state := by
  obtain ⟨t', state, found', shared, component⟩ := sound.saves _ (List.mem_of_getElem? called)
  rw [found] at found'
  cases found'
  refine ⟨state, shared, ?_⟩
  cases has : t.id with
  | none => exact component
  | some other =>
    obtain ⟨state', component', same⟩ :=
      (sound.handles _ (List.mem_of_getElem? found)).id other has
    rw [same state shared]
    exact component'

/-- Every action keeps what holds. -/
theorem sound_change (sound : Sound self) (change : Change self action self') : Sound self' := by
  have grows := extends_change change
  cases change with
  | create =>
    exact sound.extend grows (mem_append_singleton ⟨by simp, by simp⟩) (fun _ => .inl)
      (fun _ => .inl) (fun _ => .inl) (fun _ => .inl) (fun _ => .inl)
  | createReady value =>
    exact sound.extend grows (mem_append_singleton ⟨by simp, by simp⟩) (fun _ => .inl)
      (fun _ => .inl) (fun _ => .inl) (fun _ => .inl) (fun _ => .inl)
  | createInvalid =>
    exact sound.extend grows (mem_append_singleton ⟨by simp, by simp⟩) (fun _ => .inl)
      (fun _ => .inl) (fun _ => .inl) (fun _ => .inl) (fun _ => .inl)
  | copy found =>
    have leads := sound.handles _ (List.mem_of_getElem? found)
    exact sound.extend grows (mem_append_singleton (leads.mono grows)) (fun _ => .inl)
      (fun _ => .inl) (fun _ => .inl) (fun _ => .inl) (fun _ => .inl)
  | make found shared unsaved =>
    have leads := sound.handles _ (List.mem_of_getElem? found)
    exact sound.extend grows (fun _ => .inl) (mem_append_singleton (leads.shared _ shared))
      (mem_append_singleton ⟨_, _, found, shared, by simp⟩) (fun _ => .inl) (fun _ => .inl)
      (fun _ => .inl)
  | save found saved =>
    have leads := sound.handles _ (List.mem_of_getElem? found)
    refine sound.extend grows (fun _ => .inl) (fun _ => .inl) (fun _ => .inl)
      (mem_append_singleton fun id has => ?_) (fun _ => .inl) (fun _ => .inl)
    obtain ⟨state, component, -⟩ := leads.id id has
    exact (List.getElem?_eq_some_iff.mp component).1
  | store called found =>
    have leads := sound.handles _ (List.mem_of_getElem? found)
    obtain ⟨state, shared, component⟩ := stored sound called found
    refine sound.extend grows (fun t' member => ?_) (fun _ => .inl)
      (fun _ member => .inl (List.mem_of_mem_eraseIdx member))
      (mem_append_singleton fun _ has => ?_) (fun _ => .inl) (fun _ => .inl)
    · rcases List.mem_or_eq_of_mem_set member with old | rfl
      · exact .inl old
      · refine .inr ⟨leads.shared, fun _ has => ?_⟩
        cases has
        refine ⟨state, component, fun _ has => ?_⟩
        cases shared.symm.trans has
        rfl
    · cases has
      exact (List.getElem?_eq_some_iff.mp component).1
  | load found =>
    have inside := sound.parcels _ (List.mem_of_getElem? found)
    refine sound.extend grows (mem_append_singleton ⟨by simp, fun id has => ?_⟩) (fun _ => .inl)
      (fun _ => .inl) (fun _ member => .inl (List.mem_of_mem_eraseIdx member)) (fun _ => .inl)
      (fun _ => .inl)
    exact ⟨_, List.getElem?_eq_getElem (inside id has), by simp⟩
  | setValue value found shared =>
    exact sound.extend grows (fun _ => .inl) (fun _ => .inl) (fun _ => .inl) (fun _ => .inl)
      (fun _ => .inl) (fun _ => .inl)
  | send value found shared has =>
    have leads := sound.handles _ (List.mem_of_getElem? found)
    obtain ⟨state, component, -⟩ := leads.id _ has
    exact sound.extend grows (fun _ => .inl) (fun _ => .inl) (fun _ => .inl) (fun _ => .inl)
      (mem_append_singleton (List.getElem?_eq_some_iff.mp component).1) (fun _ => .inl)
  | arrive found component =>
    exact sound.extend grows (fun _ => .inl) (fun _ => .inl) (fun _ => .inl) (fun _ => .inl)
      (fun _ member => .inl (List.mem_of_mem_eraseIdx member)) (fun _ => .inl)
  | share found shared =>
    have leads := sound.handles _ (List.mem_of_getElem? found)
    exact sound.extend grows (fun _ => .inl) (fun _ => .inl) (fun _ => .inl) (fun _ => .inl)
      (fun _ => .inl) (mem_append_singleton ⟨_, .shared (leads.shared _ shared)⟩)
  | ask found shared has =>
    have leads := sound.handles _ (List.mem_of_getElem? found)
    obtain ⟨state, component, -⟩ := leads.id _ has
    refine sound.extend grows (fun _ => .inl) (fun _ => .inl) (fun _ => .inl) (fun _ => .inl)
      (fun _ => .inl) (mem_append_singleton ⟨state, .remote component fun _ absent => ?_⟩)
    cases absent
  | answer found component there =>
    refine sound.extend grows (fun _ => .inl) (fun _ => .inl) (fun _ => .inl) (fun _ => .inl)
      (fun _ => .inl) fun f member => ?_
    rcases List.mem_or_eq_of_mem_set member with old | rfl
    · exact .inl old
    · exact .inr ⟨_, .remote component fun value same => by cases same; exact there⟩

/-! ## Values -/

/-- An action gives a value to a shared state. -/
def Gives (before : Treetures V) (action : TreetureAction V) (state : Nat) (value : V) : Prop :=
  match action with
  | .createReady given => state = before.states.length ∧ given = value
  | .setValue handle given =>
    given = value ∧ ∃ t, before.handles[handle]? = some t ∧ before.target t = some state
  | _ => False

/-- A shared state has a value, or a value is on its way to it. -/
def Served (self : Treetures V) (state : Nat) (value : V) : Prop :=
  (∃ first, self.states[state]? = some (some first)) ∨
    ∃ id, (id, value) ∈ self.messages ∧ self.lcos[id]? = some state

/-- What the actions of a run have to do with the values. -/
structure Accounted (history : List (Treetures V × TreetureAction V)) (all : Treetures V) :
    Prop where
  /-- A value that is set has been given. -/
  values : ∀ state value, all.states[state]? = some (some value) →
    ∃ taken ∈ history, Gives taken.1 taken.2 state value
  /-- A value that is on its way has been given. -/
  messages : ∀ id value, (id, value) ∈ all.messages → ∃ state, all.lcos[id]? = some state ∧
    ∃ taken ∈ history, Gives taken.1 taken.2 state value
  /-- No value that is given is lost before one is set. -/
  given : ∀ taken ∈ history, ∀ state value, Gives taken.1 taken.2 state value →
    Served all state value

/-- What has a value or gets one still does. -/
theorem Served.mono {state : Nat} {value : V} (served : Served self state value)
    (grows : Extends self self')
    (kept : ∀ id value state, (id, value) ∈ self.messages → self.lcos[id]? = some state →
      Served self' state value) : Served self' state value := by
  rcases served with ⟨first, set⟩ | ⟨id, there, component⟩
  · exact .inl ⟨first, grows.values state first set⟩
  · exact kept id value state there component

/-- What an action has to do with the values is added to what the run has to do with them. -/
theorem Accounted.extend {history : List (Treetures V × TreetureAction V)}
    (accounted : Accounted history self) (grows : Extends self self')
    (values : ∀ state value, self'.states[state]? = some (some value) →
      self.states[state]? = some (some value) ∨ Gives self action state value ∨
        ∃ id, (id, value) ∈ self.messages ∧ self.lcos[id]? = some state)
    (messages : ∀ id value, (id, value) ∈ self'.messages → (id, value) ∈ self.messages ∨
      ∃ state, self.lcos[id]? = some state ∧ Gives self action state value)
    (given : ∀ state value, Gives self action state value → Served self' state value)
    (kept : ∀ id value state, (id, value) ∈ self.messages → self.lcos[id]? = some state →
      Served self' state value) : Accounted ((self, action) :: history) self' := by
  have earlier {state : Nat} {value : V}
      (before : ∃ taken ∈ history, Gives taken.1 taken.2 state value) :
      ∃ taken ∈ (self, action) :: history, Gives taken.1 taken.2 state value := by
    obtain ⟨taken, found, gives⟩ := before
    exact ⟨taken, List.mem_cons_of_mem _ found, gives⟩
  constructor
  · intro state value set
    rcases values state value set with old | gives | ⟨id, there, component⟩
    · exact earlier (accounted.values state value old)
    · exact ⟨_, List.mem_cons_self, gives⟩
    · obtain ⟨state', component', before⟩ := accounted.messages id value there
      rw [component] at component'
      cases component'
      exact earlier before
  · intro id value there
    rcases messages id value there with old | ⟨state, component, gives⟩
    · obtain ⟨state, component, before⟩ := accounted.messages id value old
      exact ⟨state, grows.lcos id state component, earlier before⟩
    · exact ⟨state, grows.lcos id state component, _, List.mem_cons_self, gives⟩
  · intro taken found state value gives
    rcases List.mem_cons.mp found with rfl | found
    · exact given state value gives
    · exact (accounted.given taken found state value gives).mono grows kept

/-- An action that gives no value and changes neither the states nor the messages keeps the account
of the values. -/
theorem Accounted.idle {history : List (Treetures V × TreetureAction V)}
    (accounted : Accounted history self) (grows : Extends self self')
    (idle : ∀ state value, ¬ Gives self action state value)
    (states : self'.states = self.states) (messages : self'.messages = self.messages) :
    Accounted ((self, action) :: history) self' := by
  refine accounted.extend grows (fun state value set => .inl (states ▸ set))
    (fun id value there => .inl (messages ▸ there))
    (fun state value gives => (idle state value gives).elim) fun id value state there found => ?_
  exact .inr ⟨id, messages ▸ there, grows.lcos id state found⟩

/-- A value is set when there is none. -/
theorem exists_setState {states : List (Option V)} {state : Nat} (made : state < states.length)
    (value : V) : ∃ first, (setState states state value)[state]? = some (some first) := by
  unfold setState
  have found := List.getElem?_eq_getElem made
  cases here : states[state] with
  | none =>
    rw [here] at found
    rw [found]
    exact ⟨value, List.getElem?_set_self made⟩
  | some first =>
    rw [here] at found
    rw [found]
    exact ⟨first, found⟩

/-- A value that is there after setting one was there or is the one that is set. -/
theorem eq_of_setState {states : List (Option V)} {state state' : Nat} {value value' : V}
    (set : (setState states state value)[state']? = some (some value')) :
    states[state']? = some (some value') ∨ state' = state ∧ value' = value := by
  unfold setState at set
  split at set
  · rename_i unset
    by_cases here : state = state'
    · subst here
      rw [List.getElem?_set_self (List.getElem?_eq_some_iff.mp unset).1] at set
      cases set
      exact .inr ⟨rfl, rfl⟩
    · rw [List.getElem?_set_ne here] at set
      exact .inl set
  · exact .inl set

/-- Every action keeps the account of the values. -/
theorem accounted_change {history : List (Treetures V × TreetureAction V)}
    (accounted : Accounted history self) (sound : Sound self)
    (change : Change self action self') : Accounted ((self, action) :: history) self' := by
  have grows := extends_change change
  -- the messages of most actions are those that were there
  have stay (same : self'.messages = self.messages) (id : Nat) (value : V) (state : Nat)
      (there : (id, value) ∈ self.messages) (component : self.lcos[id]? = some state) :
      Served self' state value :=
    .inr ⟨id, same ▸ there, grows.lcos id state component⟩
  cases change with
  | create =>
    refine accounted.extend grows (fun state value set => .inl ?_) (fun _ _ => .inl)
      (fun _ _ gives => gives.elim) (stay rfl)
    rcases getElem?_append_singleton set with old | ⟨-, unset⟩
    · exact old
    · cases unset
  | createReady value =>
    refine accounted.extend grows (fun state value' set => ?_) (fun _ _ => .inl)
      (fun state value' gives => ?_) (stay rfl)
    · rcases getElem?_append_singleton set with old | ⟨rfl, same⟩
      · exact .inl old
      · cases same
        exact .inr (.inl ⟨rfl, rfl⟩)
    · obtain ⟨rfl, rfl⟩ := gives
      exact .inl ⟨value, List.getElem?_concat_length⟩
  | createInvalid =>
    exact accounted.idle grows (fun _ _ gives => gives) rfl rfl
  | copy found =>
    exact accounted.idle grows (fun _ _ gives => gives) rfl rfl
  | make found shared unsaved =>
    exact accounted.idle grows (fun _ _ gives => gives) rfl rfl
  | save found saved =>
    exact accounted.idle grows (fun _ _ gives => gives) rfl rfl
  | store called found =>
    exact accounted.idle grows (fun _ _ gives => gives) rfl rfl
  | load found =>
    exact accounted.idle grows (fun _ _ gives => gives) rfl rfl
  | @setValue handle t state value found shared =>
    have leads : self.target t = some state := target_of_shared shared
    have made := (sound.handles _ (List.mem_of_getElem? found)).shared state shared
    refine accounted.extend grows (fun state' value' set => ?_) (fun _ _ => .inl)
      (fun state' value' gives => ?_) (stay rfl)
    · rcases eq_of_setState set with old | ⟨rfl, rfl⟩
      · exact .inl old
      · exact .inr (.inl ⟨rfl, t, found, leads⟩)
    · obtain ⟨rfl, t', found', leads'⟩ := gives
      rw [found] at found'
      cases found'
      rw [leads] at leads'
      cases leads'
      exact .inl (exists_setState made value)
  | @send handle t id value found shared has =>
    have leads : self.target t = self.lcos[id]? := target_of_id shared has
    obtain ⟨state, component, -⟩ := (sound.handles _ (List.mem_of_getElem? found)).id id has
    refine accounted.extend grows (fun _ _ => .inl) (fun id' value' there => ?_)
      (fun state' value' gives => ?_) (fun id' value' state' there component' => ?_)
    · rcases List.mem_append.mp there with old | new
      · exact .inl old
      · cases List.mem_singleton.mp new
        exact .inr ⟨state, component, rfl, t, found, leads.trans component⟩
    · obtain ⟨rfl, t', found', leads'⟩ := gives
      rw [found] at found'
      cases found'
      exact .inr ⟨id, List.mem_append_right _ List.mem_cons_self, leads.symm.trans leads'⟩
    · exact .inr ⟨id', List.mem_append_left _ there, component'⟩
  | @arrive message id state value found component =>
    have made := sound.lcos state (List.mem_of_getElem? component)
    refine accounted.extend grows (fun state' value' set => ?_)
      (fun _ _ there => .inl (List.mem_of_mem_eraseIdx there)) (fun _ _ gives => gives.elim)
      (fun id' value' state' there component' => ?_)
    · rcases eq_of_setState set with old | ⟨rfl, rfl⟩
      · exact .inl old
      · exact .inr (.inr ⟨id, List.mem_of_getElem? found, component⟩)
    · rcases mem_eraseIdx_or found there with left | same
      · exact .inr ⟨id', left, component'⟩
      · cases same
        rw [component] at component'
        cases component'
        exact .inl (exists_setState made value)
  | share found shared =>
    exact accounted.idle grows (fun _ _ gives => gives) rfl rfl
  | ask found shared has =>
    exact accounted.idle grows (fun _ _ gives => gives) rfl rfl
  | answer found component there =>
    exact accounted.idle grows (fun _ _ gives => gives) rfl rfl

end Treetures

end AllScale
