import Vscsi.Lib.Run

namespace lib

variable {σ ι τ κ : Type}

/-- What can be seen of a run. -/
def seen (see : σ → ι → Option κ) (trace : List (σ × ι)) : List κ :=
  trace.filterMap fun e => see e.1 e.2

theorem seen_snoc (see : σ → ι → Option κ) (trace : List (σ × ι)) (state : σ) (label : ι) :
    seen see (trace ++ [(state, label)]) = seen see trace ++ (see state label).toList := by
  rw [seen, List.filterMap_append, seen]
  cases hsee : see state label <;> simp [hsee]

/-- A run known by the labels of its steps. -/
def Performs (step : τ → κ → τ → Prop) (start : τ) (labels : List κ) (state : τ) : Prop :=
  ∃ trace, Run step start trace state ∧ trace.map (·.2) = labels

section Performs

variable {step : τ → κ → τ → Prop} {start state next : τ} {labels : List κ} {label : κ}

theorem Performs.refl : Performs step start [] start := ⟨[], .nil, rfl⟩

theorem Performs.snoc (h : Performs step start labels state) (hstep : step state label next) :
    Performs step start (labels ++ [label]) next := by
  obtain ⟨trace, hrun, rfl⟩ := h
  exact ⟨_, hrun.snoc hstep, by rw [List.map_append, List.map_singleton]⟩

/-- The last step of a run. -/
theorem Performs.last (h : Performs step start (labels ++ [label]) next) :
    ∃ state, Performs step start labels state ∧ step state label next := by
  obtain ⟨trace, hrun, hlabels⟩ := h
  cases hrun with
  | nil => simp at hlabels
  | @snoc trace state _ l run hstep =>
    rw [List.map_append, List.map_singleton] at hlabels
    obtain ⟨hbefore, hlast⟩ := List.append_inj' hlabels rfl
    obtain rfl := List.singleton_inj.mp hlast
    exact ⟨state, ⟨trace, run, hbefore⟩, hstep⟩

theorem Performs.nil_eq (h : Performs step start [] state) : state = start := by
  obtain ⟨trace, hrun, hlabels⟩ := h
  cases hrun with
  | nil => rfl
  | snoc run hstep => simp at hlabels

/-- Induction over the labels of a run. -/
theorem Performs.induction {P : List κ → τ → Prop} (hstart : P [] start)
    (hstep : ∀ labels state label next, P labels state → step state label next → P (labels ++ [label]) next)
    (h : Performs step start labels state) : P labels state := by
  obtain ⟨trace, hrun, rfl⟩ := h
  induction hrun with
  | nil => exact hstart
  | snoc run hlast ih =>
    rw [List.map_append, List.map_singleton]
    exact hstep _ _ _ _ ih hlast

end Performs

/-- A forward simulation for the steps satisfying `C`: one that is seen is a step
of the abstract system with that label, any other leaves the abstract state. -/
structure Simulation (step : σ → ι → σ → Prop) (C : σ → ι → Prop) (see : σ → ι → Option κ)
    (abstract : τ → κ → τ → Prop) (R : σ → τ → Prop) : Prop where
  hidden : ∀ s label s' t, R s t → C s label → step s label s' → see s label = none → R s' t
  visible : ∀ s label s' t k, R s t → C s label → step s label s' → see s label = some k →
    ∃ t', abstract t k t' ∧ R s' t'

/-- What is seen of a run is a run of the abstract system. -/
theorem Simulation.run {step : σ → ι → σ → Prop} {C : σ → ι → Prop} {see : σ → ι → Option κ}
    {abstract : τ → κ → τ → Prop} {R : σ → τ → Prop} (h : Simulation step C see abstract R) {start state : σ} {t : τ}
    (hstart : R start t) {trace : List (σ × ι)} (hrun : Run step start trace state) (hsteps : ∀ e ∈ trace, C e.1 e.2) :
    ∃ t', Performs abstract t (seen see trace) t' ∧ R state t' := by
  induction hrun with
  | nil => exact ⟨t, .refl, hstart⟩
  | @snoc trace current next label run hstep ih =>
    obtain ⟨t', hperforms, hrelated⟩ := ih fun e he => hsteps e (List.mem_append_left _ he)
    have hallowed : C current label := hsteps (current, label) (by simp)
    rw [seen_snoc]
    cases hsee : see current label with
    | none =>
      rw [Option.toList_none, List.append_nil]
      exact ⟨t', hperforms, h.hidden _ _ _ _ hrelated hallowed hstep hsee⟩
    | some k =>
      obtain ⟨t'', habstract, hrelated'⟩ := h.visible _ _ _ _ _ hrelated hallowed hstep hsee
      exact ⟨t'', hperforms.snoc habstract, hrelated'⟩

end lib
