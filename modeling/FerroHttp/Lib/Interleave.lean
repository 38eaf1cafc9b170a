import Mathlib.Logic.Function.Basic

/-!
# Interleave — tasks over a shared state

Any number of tasks over one shared state, of which one takes a step at a time. A step is
a function of what the environment chooses, the shared state and the task's own state, so
a run is determined by its events. `Always` speaks about the states of a run and `Steps`
about its steps; `run_of_steps` and `always_iff_steps` are the rules that connect them.
-/

namespace Interleave

/-- The shared state and the tasks. -/
structure System (ι σ τ : Type) where
  shared : σ
  tasks : ι → τ

section Runs

variable {ι α σ τ : Type} [DecidableEq ι]

/-- One step of task `i`, with what the environment chooses. -/
def System.step (step : α → σ → τ → τ × σ) (s : System ι σ τ) (e : ι × α) : System ι σ τ :=
  ⟨(step e.2 s.shared (s.tasks e.1)).2,
    Function.update s.tasks e.1 (step e.2 s.shared (s.tasks e.1)).1⟩

/-- The state after a run. -/
def System.run (step : α → σ → τ → τ × σ) (s : System ι σ τ) (events : List (ι × α)) :
    System ι σ τ := events.foldl (System.step step) s

variable {step : α → σ → τ → τ × σ} {Inv : System ι σ τ → Prop}
  {P : System ι σ τ → ι × α → Prop} {s : System ι σ τ} {events : List (ι × α)} {e : ι × α}

theorem System.tasks_step_self : (s.step step e).tasks e.1 =
    (step e.2 s.shared (s.tasks e.1)).1 := Function.update_self ..

theorem System.tasks_step_ne {i : ι} (h : i ≠ e.1) : (s.step step e).tasks i = s.tasks i :=
  Function.update_of_ne h ..

/-- Every state of the run satisfies `Inv`. -/
def Always (step : α → σ → τ → τ × σ) (Inv : System ι σ τ → Prop) :
    System ι σ τ → List (ι × α) → Prop
  | s, [] => Inv s
  | s, e :: events => Inv s ∧ Always step Inv (s.step step e) events

/-- Every step of the run satisfies `P` in the state before it. -/
def Steps (step : α → σ → τ → τ × σ) (P : System ι σ τ → ι × α → Prop) :
    System ι σ τ → List (ι × α) → Prop
  | _, [] => True
  | s, e :: events => P s e ∧ Steps step P (s.step step e) events

/-- What holds of every event can be used at every step. -/
theorem Steps.and_forall {Q : ι × α → Prop} (h : Steps step P s events) (hall : ∀ e ∈ events, Q e) :
    Steps step (fun s e => P s e ∧ Q e) s events := by
  induction events generalizing s with
  | nil => trivial
  | cons e events ih =>
    rw [List.forall_mem_cons] at hall
    exact ⟨⟨h.1, hall.1⟩, ih h.2 hall.2⟩

/-- What every step of the run keeps holds at its end. -/
theorem run_of_steps (hkeep : ∀ s e, Inv s → P s e → Inv (s.step step e)) (h : Inv s)
    (hsteps : Steps step P s events) : Inv (s.run step events) := by
  induction events generalizing s with
  | nil => exact h
  | cons e events ih => exact ih (hkeep s e h hsteps.1) hsteps.2

/-- Where a step keeps `Inv` exactly when it satisfies `P`, a run does so throughout exactly
when all of its steps do. `Side` is an invariant that the steps need. -/
theorem always_iff_steps {Side : System ι σ τ → Prop} (hside : ∀ s e, Side s → Side (s.step step e))
    (hstep : ∀ s e, Side s → Inv s → (Inv (s.step step e) ↔ P s e)) (hs : Side s) (h : Inv s) :
    Always step Inv s events ↔ Steps step P s events := by
  induction events generalizing s with
  | nil => exact ⟨fun _ => trivial, fun _ => h⟩
  | cons e events ih =>
    simp only [Always, Steps]
    constructor
    · rintro ⟨_, hrest⟩
      have hnext : Inv (s.step step e) := by
        cases events with
        | nil => exact hrest
        | cons _ _ => exact hrest.1
      exact ⟨(hstep s e hs h).mp hnext, (ih (hside s e hs) hnext).mp hrest⟩
    · rintro ⟨hP, hrest⟩
      have hnext := (hstep s e hs h).mpr hP
      exact ⟨h, (ih (hside s e hs) hnext).mpr hrest⟩

end Runs

end Interleave
