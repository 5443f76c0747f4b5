import Vscsi.Lib.Simulation
import Mathlib.Logic.Function.Basic

namespace lib

/-- What happens to a table of machines: one appears under a key, or a call goes to
the one that is there. -/
inductive Keyed.Event (κ σ ι : Type) where
  | created (key : κ) (state : σ)
  | called (key : κ) (label : ι)

variable {κ σ ι : Type} [DecidableEq κ] {init : κ → σ → Prop} {step : σ → ι → σ → Prop} {live : σ → Bool}

/-- A table of machines that do not know of each other. One that a call leaves dead
goes out of the table. -/
inductive Keyed.Step (init : κ → σ → Prop) (step : σ → ι → σ → Prop) (live : σ → Bool) :
    (κ → Option σ) → Keyed.Event κ σ ι → (κ → Option σ) → Prop where
  | created {table : κ → Option σ} {key : κ} {state : σ} (habsent : table key = none) (hinit : init key state) :
      Step init step live table (.created key state) (Function.update table key (some state))
  | called {table : κ → Option σ} {key : κ} {state next : σ} {label : ι} (hthere : table key = some state)
      (hstep : step state label next) :
      Step init step live table (.called key label) (Function.update table key (if live next then some next else none))

/-- The calls on a key since a machine appeared under it last. -/
def Keyed.life (key : κ) (events : List (Keyed.Event κ σ ι)) : List ι :=
  events.foldl (fun calls event =>
    match event with
    | .created other _ => if other = key then [] else calls
    | .called other label => if other = key then calls ++ [label] else calls) []

namespace Keyed

variable {table table' : κ → Option σ} {key other : κ} {state : σ} {label : ι} {events : List (Event κ σ ι)}

theorem life_created (h : other = key) : life key (events ++ [.created other state]) = [] := by
  simp [life, h]

theorem life_called (h : other = key) : life key (events ++ [.called other label]) = life key events ++ [label] := by
  simp [life, h]

theorem life_other {event : Event κ σ ι} (hcreated : ∀ state, event ≠ .created key state)
    (hcalled : ∀ label, event ≠ .called key label) : life key (events ++ [event]) = life key events := by
  rw [life, List.foldl_append]
  cases event with
  | created other state =>
    have hne : other ≠ key := by
      rintro rfl
      exact hcreated state rfl
    simp [life, hne]
  | called other label =>
    have hne : other ≠ key := by
      rintro rfl
      exact hcalled label rfl
    simp [life, hne]

/-- A machine of a table has been through the calls made on it, and no others. -/
theorem performs_life (h : Performs (Step init step live) (fun _ => none) events table) :
    ∀ key state, table key = some state → ∃ first, init key first ∧ Performs step first (life key events) state := by
  refine h.induction (P := fun events table => ∀ key state, table key = some state →
    ∃ first, init key first ∧ Performs step first (life key events) state) (fun key state h => by cases h) ?_
  intro events table event next ih hstep key state hstate
  cases hstep with
  | @created other first habsent hinit =>
    by_cases hkey : key = other
    · subst hkey
      rw [Function.update_self] at hstate
      obtain rfl := Option.some.inj hstate
      rw [life_created rfl]
      exact ⟨first, hinit, .refl⟩
    · rw [Function.update_of_ne hkey] at hstate
      rw [life_other (by simp [Ne.symm hkey]) (by simp)]
      exact ih key state hstate
  | @called other before after label hthere hstep =>
    by_cases hkey : key = other
    · subst hkey
      rw [Function.update_self] at hstate
      obtain ⟨first, hinit, hperforms⟩ := ih key before hthere
      rw [life_called rfl]
      split at hstate
      · obtain rfl := Option.some.inj hstate
        exact ⟨first, hinit, hperforms.snoc hstep⟩
      · cases hstate
    · rw [Function.update_of_ne hkey] at hstate
      rw [life_other (by simp) (by simp [Ne.symm hkey])]
      exact ih key state hstate

end Keyed

end lib
