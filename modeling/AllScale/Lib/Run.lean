import Mathlib.Tactic.Common

/-!
# Runs of a transition system

A run is recorded as the list of its steps, the latest first, each with the state it was taken
in. What holds in every state of a run is then a statement about that list and the state
reached, and conditions on the steps taken are conditions on its members.
-/

namespace Transition

/-- An initial state and the labelled steps between states. -/
structure System (σ ι : Type) where
  /-- Where every run starts. -/
  start : σ
  /-- `step s action s'` when the action leads from `s` to `s'`. -/
  step : σ → ι → σ → Prop

/-- How often a member of a list differs from the next one. -/
def changes {κ : Type} [DecidableEq κ] : List κ → Nat
  | [] => 0
  | [_] => 0
  | first :: second :: rest => changes (second :: rest) + if first = second then 0 else 1

namespace System

variable {σ ι : Type} {S : System σ ι}

/-- The runs of a system, with the steps taken and the state reached. -/
inductive Run (S : System σ ι) : List (σ × ι) → σ → Prop
  | start : Run S [] S.start
  | step {history : List (σ × ι)} {s s' : σ} {action : ι} :
      Run S history s → S.step s action s' → Run S ((s, action) :: history) s'

/-- A predicate holds in all states of a run, the reached one included. -/
def Always (P : σ → Prop) (history : List (σ × ι)) (s : σ) : Prop :=
  P s ∧ ∀ taken ∈ history, P taken.1

/-- What follows from a predicate in every state holds wherever the predicate does. -/
theorem Always.imp {P Q : σ → Prop} {history : List (σ × ι)} {s : σ}
    (always : Always P history s) (imp : ∀ s, P s → Q s) : Always Q history s :=
  ⟨imp s always.1, fun taken found => imp taken.1 (always.2 taken found)⟩

/-- A condition holds of every step of a run, in the state it was taken in. -/
def Meets (Q : σ → ι → Prop) (history : List (σ × ι)) : Prop :=
  ∀ taken ∈ history, Q taken.1 taken.2

/-- What holds at the start and is kept by every step that meets a condition holds in every
state of a run whose steps all meet it. -/
theorem Run.always {P : σ → Prop} {Q : σ → ι → Prop} {history : List (σ × ι)} {s : σ}
    (run : S.Run history s) (start : P S.start)
    (step : ∀ {s action s'}, P s → Q s action → S.step s action s' → P s')
    (meets : Meets Q history) : Always P history s := by
  induction run with
  | start => exact ⟨start, fun _ found => absurd found List.not_mem_nil⟩
  | @step history s s' action _ taken ih =>
    have before := ih fun earlier found => meets earlier (List.mem_cons_of_mem _ found)
    refine ⟨step before.1 (meets _ List.mem_cons_self) taken, fun earlier found => ?_⟩
    rcases List.mem_cons.mp found with rfl | found
    · exact before.1
    · exact before.2 earlier found

/-- What holds at the start and is kept by every step holds in every state of a run. -/
theorem Run.invariant {P : σ → Prop} {history : List (σ × ι)} {s : σ} (run : S.Run history s)
    (start : P S.start) (step : ∀ {s action s'}, P s → S.step s action s' → P s') : P s :=
  (run.always (Q := fun _ _ => True) start (fun before _ => step before)
    (fun _ _ => trivial)).1

/-- What holds of every step from a state with an invariant holds of every step of a run. -/
theorem Run.meets {I : σ → Prop} {Q : σ → ι → Prop} {history : List (σ × ι)} {s : σ}
    (run : S.Run history s) (start : I S.start)
    (keeps : ∀ {s action s'}, I s → S.step s action s' → I s')
    (holds : ∀ {s action s'}, I s → S.step s action s' → Q s action) : Meets Q history := by
  induction run with
  | start => exact fun _ found => absurd found List.not_mem_nil
  | @step history s s' action earlier taken ih =>
    intro state found
    rcases List.mem_cons.mp found with rfl | found
    · exact holds (earlier.invariant start keeps) taken
    · exact ih state found

/-- When every step from a state with an invariant lowers a measure, a run takes no more steps than
the measure of its start. -/
theorem Run.length_add_le {I : σ → Prop} {history : List (σ × ι)} {s : σ}
    (run : S.Run history s) (weight : σ → Nat) (start : I S.start)
    (keeps : ∀ {s action s'}, I s → S.step s action s' → I s')
    (lowers : ∀ {s action s'}, I s → S.step s action s' → weight s' < weight s) :
    history.length + weight s ≤ weight S.start := by
  induction run with
  | start => simp
  | @step history s s' action earlier taken ih =>
    have lower := lowers (earlier.invariant start keeps) taken
    rw [List.length_cons]
    omega

/-- A list of actions whose steps are computed one after the other, each if it meets a condition,
continues a run that meets the condition. -/
theorem Run.exists_meets_of_foldlM {Q : σ → ι → Prop} {f : σ → ι → Option σ}
    (steps : ∀ {s action s'}, f s action = some s' → Q s action ∧ S.step s action s')
    (actions : List ι) {history : List (σ × ι)} {s s' : σ} (run : S.Run history s)
    (meets : Meets Q history) (computed : actions.foldlM f s = some s') :
    ∃ history', S.Run history' s' ∧ Meets Q history' ∧
      history'.map Prod.snd = actions.reverse ++ history.map Prod.snd := by
  induction actions generalizing history s with
  | nil =>
    cases computed
    exact ⟨history, run, meets, rfl⟩
  | cons action actions ih =>
    rw [List.foldlM_cons] at computed
    obtain ⟨next, taken, rest⟩ := Option.bind_eq_some_iff.mp computed
    have met := steps taken
    obtain ⟨history', later, meets', same⟩ :=
      ih (.step run met.2) (List.forall_mem_cons.mpr ⟨met.1, meets⟩) rest
    refine ⟨history', later, meets', ?_⟩
    rw [same, List.reverse_cons, List.append_assoc]
    rfl

/-- A list of actions whose steps are computed one after the other continues a run. -/
theorem Run.exists_of_foldlM {f : σ → ι → Option σ}
    (steps : ∀ {s action s'}, f s action = some s' → S.step s action s') (actions : List ι)
    {history : List (σ × ι)} {s s' : σ} (run : S.Run history s)
    (computed : actions.foldlM f s = some s') :
    ∃ history', S.Run history' s' ∧
      history'.map Prod.snd = actions.reverse ++ history.map Prod.snd := by
  obtain ⟨history', later, -, same⟩ := run.exists_meets_of_foldlM (Q := fun _ _ => True)
    (fun taken => ⟨trivial, steps taken⟩) actions (fun _ _ => trivial) computed
  exact ⟨history', later, same⟩

/-- A predicate holds in every state of a run exactly if all steps meet a condition, when the
condition keeps an invariant that implies the predicate and, from states with the invariant, no
other step leads to the predicate. -/
theorem Run.always_iff_meets {I P : σ → Prop} {Q : σ → ι → Prop} {history : List (σ × ι)} {s : σ}
    (run : S.Run history s) (start : I S.start) (holds : ∀ s, I s → P s)
    (step : ∀ {s action s'}, I s → Q s action → S.step s action s' → I s')
    (needs : ∀ {s action s'}, I s → S.step s action s' → P s' → Q s action) :
    Always P history s ↔ Meets Q history := by
  refine ⟨fun always => ?_, fun meets => (run.always start step meets).imp holds⟩
  induction run with
  | start => exact fun _ found => absurd found List.not_mem_nil
  | @step history s s' action earlier taken ih =>
    have past := ih ⟨always.2 _ List.mem_cons_self, fun state found =>
      always.2 state (List.mem_cons_of_mem _ found)⟩
    intro state found
    rcases List.mem_cons.mp found with rfl | found
    · exact needs (earlier.always start step past).1 taken always.1
    · exact past state found

/-- When a step keeps a predicate exactly if it meets a condition, the predicate holds in every
state of a run exactly if all its steps meet the condition. -/
theorem Run.always_iff {J P : σ → Prop} {Q : σ → ι → Prop} {history : List (σ × ι)} {s : σ}
    (run : S.Run history s) (base : J S.start)
    (keeps : ∀ {s action s'}, J s → S.step s action s' → J s') (start : P S.start)
    (step : ∀ {s action s'}, J s → P s → S.step s action s' → (P s' ↔ Q s action)) :
    Always P history s ↔ Meets Q history :=
  run.always_iff_meets (I := fun s => J s ∧ P s) ⟨base, start⟩ (fun _ => And.right)
    (fun before met taken => ⟨keeps before.1 taken, (step before.1 before.2 taken).mpr met⟩)
    (fun before taken after => (step before.1 before.2 taken).mp after)

/-- When every step from a state with an invariant is seen as a step of another system, or leaves
what is seen as it is, a run is seen as a run of the other system. -/
theorem Run.simulates {τ κ : Type} {T : System τ κ} {I : σ → Prop} {history : List (σ × ι)} {s : σ}
    (run : S.Run history s) (view : σ → τ) (seen : σ → ι → Option κ) (start : I S.start)
    (keeps : ∀ {s action s'}, I s → S.step s action s' → I s') (same : view S.start = T.start)
    (idle : ∀ {s action s'}, I s → S.step s action s' → seen s action = none → view s' = view s)
    (step : ∀ {s action s' label}, I s → S.step s action s' → seen s action = some label →
      T.step (view s) label (view s')) :
    ∃ history', T.Run history' (view s) ∧
      history'.map Prod.snd = history.filterMap fun taken => seen taken.1 taken.2 := by
  induction run with
  | start => exact ⟨[], same ▸ .start, rfl⟩
  | @step history s s' action earlier taken ih =>
    obtain ⟨history', later, labels⟩ := ih
    have holds := earlier.invariant start keeps
    cases shown : seen s action with
    | none =>
      refine ⟨history', idle holds taken shown ▸ later, ?_⟩
      simp only [List.filterMap_cons, shown, labels]
    | some label =>
      refine ⟨_, later.step (step holds taken shown), ?_⟩
      simp only [List.filterMap_cons, shown, List.map_cons, labels]

/-- What relates the states of every step, one after the other, relates every state of a run to the
one it reaches. -/
theorem Run.since {I : σ → Prop} {R : σ → σ → Prop} {history : List (σ × ι)} {s : σ}
    (run : S.Run history s) (start : I S.start)
    (keeps : ∀ {s action s'}, I s → S.step s action s' → I s')
    (step : ∀ {s action s'}, I s → S.step s action s' → R s s')
    (trans : ∀ {a b c}, R a b → R b c → R a c) : ∀ taken ∈ history, R taken.1 s := by
  induction run with
  | start => exact fun _ found => absurd found List.not_mem_nil
  | @step history s s' action earlier taken ih =>
    have related := step (earlier.invariant start keeps) taken
    intro state found
    rcases List.mem_cons.mp found with rfl | found
    · exact related
    · exact trans (ih state found) related

end System

end Transition
