import Mathlib.Data.List.Basic

namespace lib

variable {σ ι : Type}

/-- A finite run of a labelled transition system. The trace lists every step
with the state it was taken in, so a condition on steps can be read off it. -/
inductive Run (step : σ → ι → σ → Prop) (start : σ) : List (σ × ι) → σ → Prop where
  | nil : Run step start [] start
  | snoc {trace : List (σ × ι)} {state next : σ} {label : ι}
      (run : Run step start trace state) (hstep : step state label next) :
      Run step start (trace ++ [(state, label)]) next

/-- The states some run ends in. -/
def Reachable (step : σ → ι → σ → Prop) (start state : σ) : Prop :=
  ∃ trace, Run step start trace state

variable {step : σ → ι → σ → Prop} {start : σ}

theorem Reachable.refl : Reachable step start start := ⟨[], .nil⟩

theorem Reachable.tail {state next : σ} {label : ι} (h : Reachable step start state)
    (hstep : step state label next) : Reachable step start next := by
  obtain ⟨trace, hrun⟩ := h
  exact ⟨_, hrun.snoc hstep⟩

/-- A run that goes on where another ends. -/
theorem Run.append {trace trace' : List (σ × ι)} {middle state : σ} (hrun : Run step start trace middle)
    (hrun' : Run step middle trace' state) : Run step start (trace ++ trace') state := by
  induction hrun' with
  | nil => simpa using hrun
  | snoc run hstep ih =>
    rw [← List.append_assoc]
    exact ih.snoc hstep

theorem Reachable.trans {middle state : σ} (h : Reachable step start middle)
    (h' : Reachable step middle state) : Reachable step start state := by
  obtain ⟨trace, hrun⟩ := h
  obtain ⟨trace', hrun'⟩ := h'
  exact ⟨_, hrun.append hrun'⟩

/-- A run of steps of one kind is a run, all of whose steps are of that kind. -/
theorem Run.of_kind {kind : ι → Prop} {trace : List (σ × ι)} {state : σ}
    (hrun : Run (fun s label s' => step s label s' ∧ kind label) start trace state) :
    Run step start trace state ∧ ∀ e ∈ trace, kind e.2 := by
  induction hrun with
  | nil => exact ⟨.nil, fun e he => absurd he List.not_mem_nil⟩
  | snoc run hstep ih =>
    refine ⟨ih.1.snoc hstep.1, fun e he => ?_⟩
    rcases List.mem_append.mp he with he | he
    · exact ih.2 e he
    · rw [List.mem_singleton.mp he]
      exact hstep.2

theorem Reachable.mono {step' : σ → ι → σ → Prop} {state : σ} (hstep : ∀ s label s', step s label s' → step' s label s')
    (h : Reachable step start state) : Reachable step' start state := by
  obtain ⟨trace, hrun⟩ := h
  induction hrun with
  | nil => exact .refl
  | snoc run hlast ih => exact ih.tail (hstep _ _ _ hlast)

/-- A property of the start that every step satisfying `C` preserves holds at
the end of every run all of whose steps satisfy `C`. -/
theorem Run.invariant_of_steps {C : σ → ι → Prop} {P : σ → Prop} (hstart : P start)
    (hpreserve : ∀ state label next, P state → C state label → step state label next → P next)
    {trace : List (σ × ι)} {state : σ} (hrun : Run step start trace state)
    (hsteps : ∀ e ∈ trace, C e.1 e.2) : P state := by
  induction hrun with
  | nil => exact hstart
  | snoc run hstep ih =>
    have hbefore := ih fun e he => hsteps e (List.mem_append_left _ he)
    exact hpreserve _ _ _ hbefore (hsteps _ (List.mem_append_right _ (List.mem_singleton.mpr rfl))) hstep

/-- Every step of a run is a step of the system from a state an earlier part of
the run reached. -/
theorem Run.split {before after : List (σ × ι)} {state last : σ} {label : ι}
    (hrun : Run step start (before ++ (state, label) :: after) last) :
    Run step start before state ∧ ∃ next, step state label next ∧
      Run step next after last := by
  generalize htrace : before ++ (state, label) :: after = trace at hrun
  induction hrun generalizing after with
  | nil => simp at htrace
  | @snoc trace current next lab run hstep ih =>
    rcases List.eq_nil_or_concat after with rfl | ⟨rest, last, rfl⟩
    · obtain ⟨rfl, hlast⟩ := List.append_inj' htrace rfl
      obtain ⟨rfl, rfl⟩ : state = current ∧ label = lab := by simpa using hlast
      exact ⟨run, next, hstep, .nil⟩
    · rw [List.concat_eq_append, ← List.cons_append, ← List.append_assoc] at htrace
      obtain ⟨hinit, hlast⟩ := List.append_inj' htrace rfl
      obtain ⟨hbefore, mid, hmid, hrest⟩ := ih hinit
      refine ⟨hbefore, mid, hmid, ?_⟩
      rw [List.concat_eq_append, (List.singleton_inj.mp hlast)]
      exact hrest.snoc hstep

/-- A property holds in every state a run goes through. -/
def Always (P : σ → Prop) (trace : List (σ × ι)) (state : σ) : Prop :=
  (∀ e ∈ trace, P e.1) ∧ P state

/-- What an invariant of the steps satisfying `C` implies holds all along a run of
such steps. -/
theorem Run.always_of_steps {C : σ → ι → Prop} {I P : σ → Prop} (hstart : I start) (hinv : ∀ state, I state → P state)
    (hkeep : ∀ state label next, I state → C state label → step state label next → I next)
    {trace : List (σ × ι)} {state : σ} (hrun : Run step start trace state) (hsteps : ∀ e ∈ trace, C e.1 e.2) :
    Always P trace state := by
  refine ⟨fun e he => ?_, hinv _ (hrun.invariant_of_steps hstart hkeep hsteps)⟩
  obtain ⟨before, after, rfl⟩ := List.append_of_mem he
  have hbefore := hrun.split.1
  exact hinv _ (hbefore.invariant_of_steps hstart hkeep fun e' he' => hsteps e' (List.mem_append_left _ he'))

/-- When an invariant is kept by the steps satisfying `C` and the other steps
lead at once to where `P` fails, `P` holds all along a run exactly if all its
steps satisfy `C`. -/
theorem Run.always_iff {C : σ → ι → Prop} {I P : σ → Prop} (hstart : I start) (hinv : ∀ state, I state → P state)
    (hkeep : ∀ state label next, I state → C state label → step state label next → I next)
    (hbreak : ∀ state label next, I state → ¬ C state label → step state label next → ¬ P next)
    {trace : List (σ × ι)} {state : σ} (hrun : Run step start trace state) :
    Always P trace state ↔ ∀ e ∈ trace, C e.1 e.2 := by
  constructor
  · intro halways
    induction hrun with
    | nil => exact fun e he => absurd he (List.not_mem_nil)
    | @snoc trace current next label run hstep ih =>
      have hlast : (current, label) ∈ trace ++ [(current, label)] := by simp
      have hbefore := ih ⟨fun e he => halways.1 e (List.mem_append_left _ he), halways.1 _ hlast⟩
      have hcurrent := run.invariant_of_steps hstart hkeep hbefore
      intro e he
      rcases List.mem_append.mp he with he | he
      · exact hbefore e he
      · rw [List.mem_singleton.mp he]
        by_contra hnot
        exact hbreak current label next hcurrent hnot hstep halways.2
  · exact hrun.always_of_steps hstart hinv hkeep

/-- As many of the steps satisfying `C` as a potential allows are counted ones, where
each counted step lowers it and no other raises it. -/
theorem Run.counted_le {C : σ → ι → Prop} {I : σ → Prop} {counted : ι → Bool} {potential : σ → Nat} (hstart : I start)
    (hkeep : ∀ state label next, I state → C state label → step state label next → I next)
    (hlower : ∀ state label next, I state → C state label → step state label next → potential next ≤ potential state ∧
      (counted label = true → potential next < potential state))
    {trace : List (σ × ι)} {state : σ} (hrun : Run step start trace state) (hsteps : ∀ e ∈ trace, C e.1 e.2) :
    trace.countP (fun e => counted e.2) + potential state ≤ potential start := by
  induction hrun with
  | nil => simp
  | @snoc trace current next label run hstep ih =>
    have hbefore : ∀ e ∈ trace, C e.1 e.2 := fun e he => hsteps e (List.mem_append_left _ he)
    have hallowed : C current label := hsteps (current, label) (by simp)
    obtain ⟨hle, hlt⟩ := hlower current label next (run.invariant_of_steps hstart hkeep hbefore) hallowed hstep
    have hcount := ih hbefore
    rw [List.countP_append, List.countP_singleton]
    split
    · rename_i hcounted
      have hless := hlt hcounted
      omega
    · omega

/-- The unconditional invariant rule. -/
theorem Reachable.invariant {P : σ → Prop} (hstart : P start)
    (hpreserve : ∀ state label next, P state → step state label next → P next)
    {state : σ} (h : Reachable step start state) : P state := by
  obtain ⟨trace, hrun⟩ := h
  exact hrun.invariant_of_steps (C := fun _ _ => True) hstart
    (fun s l n hs _ hstep => hpreserve s l n hs hstep) (fun _ _ => trivial)

end lib
