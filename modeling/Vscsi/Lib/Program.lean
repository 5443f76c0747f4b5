import Mathlib.Logic.Function.Basic

namespace lib

/-- A computation that makes calls and goes on with their replies, up to a
result or a failure. -/
inductive Prog {Call : Type} (Reply : Call → Type) (ε α : Type) where
  | ret (a : α)
  | fail (e : ε)
  | call (c : Call) (next : Reply c → Prog Reply ε α)

/-- What a call does to a state. The choice is what its specification leaves open. -/
abbrev Sem {Call : Type} (Reply : Call → Type) (Choice σ ε : Type) :=
  (c : Call) → Choice → σ → Except ε (Reply c × σ)

/-- A state together with the choices of the calls to come. -/
structure Machine (Choice σ : Type) where
  state : σ
  choices : Nat → Choice

/-- All choices to come are among the allowed ones. -/
def Machine.Fair {Choice σ : Type} (ok : Choice → Prop) (m : Machine Choice σ) : Prop :=
  ∀ n, ok (m.choices n)

namespace Prog

variable {Call Choice σ ε α β : Type} {Reply : Call → Type}

def bind : Prog Reply ε α → (α → Prog Reply ε β) → Prog Reply ε β
  | ret a, f => f a
  | fail e, _ => fail e
  | call c next, f => call c fun r => (next r).bind f

instance : Monad (Prog Reply ε) where
  pure := ret
  bind := bind

theorem bind_assoc {γ : Type} (p : Prog Reply ε α) (f : α → Prog Reply ε β) (g : β → Prog Reply ε γ) :
    p >>= f >>= g = p >>= fun a => f a >>= g := by
  induction p with
  | ret a => rfl
  | fail e => rfl
  | call c next ih => exact congrArg (call c) (funext ih)

/-- The computation of a single call. -/
def perform (c : Call) : Prog Reply ε (Reply c) := call c ret

@[simp] theorem pure_eq (a : α) : (pure a : Prog Reply ε α) = ret a := rfl

@[simp] theorem ret_bind (a : α) (f : α → Prog Reply ε β) : ret a >>= f = f a := rfl

@[simp] theorem fail_bind (e : ε) (f : α → Prog Reply ε β) : fail e >>= f = fail e := rfl

@[simp] theorem call_bind (c : Call) (next : Reply c → Prog Reply ε α) (f : α → Prog Reply ε β) :
    call c next >>= f = call c fun r => next r >>= f := rfl

@[simp] theorem perform_bind (c : Call) (f : Reply c → Prog Reply ε β) : perform c >>= f = call c f := rfl

def exec (sem : Sem Reply Choice σ ε) : Prog Reply ε α → Machine Choice σ → Except ε (α × Machine Choice σ)
  | ret a, m => .ok (a, m)
  | fail e, _ => .error e
  | call c next, m =>
    match sem c (m.choices 0) m.state with
    | .ok (r, state) => (next r).exec sem { state, choices := fun n => m.choices (n + 1) }
    | .error e => .error e

@[simp] theorem exec_ret (sem : Sem Reply Choice σ ε) (a : α) (m : Machine Choice σ) :
    (ret a : Prog Reply ε α).exec sem m = .ok (a, m) := rfl

theorem exec_bind (sem : Sem Reply Choice σ ε) (p : Prog Reply ε α) (f : α → Prog Reply ε β)
    (m : Machine Choice σ) :
    (p >>= f).exec sem m =
      match p.exec sem m with
      | .ok (a, m') => (f a).exec sem m'
      | .error e => .error e := by
  induction p generalizing m with
  | ret a => rfl
  | fail e => rfl
  | call c next ih =>
    simp only [call_bind, exec]
    cases hsem : sem c (m.choices 0) m.state with
    | ok reply => exact ih reply.1 _
    | error e => rfl

/-- From a state, and whatever allowed choices are made, a computation ends with
a result and a state in `Q` or with a tolerated failure. -/
def Meets (sem : Sem Reply Choice σ ε) (ok : Choice → Prop) (tolerated : ε → Prop) :
    Prog Reply ε α → σ → (α → σ → Prop) → Prop
  | ret a, s, Q => Q a s
  | fail e, _, _ => tolerated e
  | call c next, s, Q => ∀ choice, ok choice →
    match sem c choice s with
    | .ok (r, s') => (next r).Meets sem ok tolerated s' Q
    | .error e => tolerated e

variable {sem : Sem Reply Choice σ ε} {ok : Choice → Prop} {tolerated tolerated' : ε → Prop}

theorem Meets.mono {p : Prog Reply ε α} {s : σ} {Q R : α → σ → Prop} (h : p.Meets sem ok tolerated s Q)
    (htolerated : ∀ e, tolerated e → tolerated' e) (hpost : ∀ a s', Q a s' → R a s') :
    p.Meets sem ok tolerated' s R := by
  induction p generalizing s with
  | ret a => exact hpost a s h
  | fail e => exact htolerated e h
  | call c next ih =>
    intro choice hchoice
    have hcall := h choice hchoice
    cases hsem : sem c choice s with
    | ok reply =>
      rw [hsem] at hcall
      exact ih reply.1 hcall
    | error e =>
      rw [hsem] at hcall
      exact htolerated e hcall

theorem Meets.bind {p : Prog Reply ε α} {f : α → Prog Reply ε β} {s : σ} {Q : α → σ → Prop}
    {R : β → σ → Prop} (h : p.Meets sem ok tolerated s Q)
    (hrest : ∀ a s', Q a s' → (f a).Meets sem ok tolerated s' R) :
    (p >>= f).Meets sem ok tolerated s R := by
  induction p generalizing s with
  | ret a => exact hrest a s h
  | fail e => exact h
  | call c next ih =>
    intro choice hchoice
    have hcall := h choice hchoice
    cases hsem : sem c choice s with
    | ok reply =>
      rw [hsem] at hcall
      exact ih reply.1 hcall
    | error e =>
      rw [hsem] at hcall
      exact hcall

/-- The rule for a call that succeeds whatever the choice. -/
theorem Meets.call {c : Call} {next : Reply c → Prog Reply ε α} {s : σ} {Q : α → σ → Prop}
    (h : ∀ choice, ok choice → ∃ r s', sem c choice s = .ok (r, s') ∧ (next r).Meets sem ok tolerated s' Q) :
    (Prog.call c next).Meets sem ok tolerated s Q := by
  intro choice hchoice
  obtain ⟨r, s', hsem, hrest⟩ := h choice hchoice
  rw [hsem]
  exact hrest

/-- What a computation meets holds of its execution. -/
theorem Meets.exec {p : Prog Reply ε α} {m : Machine Choice σ} {Q : α → σ → Prop}
    (h : p.Meets sem ok tolerated m.state Q) (hfair : m.Fair ok) :
    (∃ a m', p.exec sem m = .ok (a, m') ∧ m'.Fair ok ∧ Q a m'.state) ∨
      ∃ e, p.exec sem m = .error e ∧ tolerated e := by
  induction p generalizing m with
  | ret a => exact .inl ⟨a, m, rfl, hfair, h⟩
  | fail e => exact .inr ⟨e, rfl, h⟩
  | call c next ih =>
    have hcall := h (m.choices 0) (hfair 0)
    cases hsem : sem c (m.choices 0) m.state with
    | ok reply =>
      rw [hsem] at hcall
      have hrest := ih reply.1 (m := { state := reply.2, choices := fun n => m.choices (n + 1) }) hcall
        fun n => hfair (n + 1)
      simpa only [Prog.exec, hsem] using hrest
    | error e =>
      rw [hsem] at hcall
      exact .inr ⟨e, by simp only [Prog.exec, hsem], hcall⟩

/-- What a computation meets does not depend on which of the allowed choices a
call is given. -/
theorem Meets.refine {Choice' : Type} {sem' : Sem Reply Choice' σ ε} {ok' : Choice' → Prop} {p : Prog Reply ε α} {s : σ}
    {Q : α → σ → Prop} (h : p.Meets sem ok tolerated s Q)
    (hcalls : ∀ c choice s, ok' choice → ∃ choice', ok choice' ∧ sem' c choice s = sem c choice' s) :
    p.Meets sem' ok' tolerated s Q := by
  induction p generalizing s with
  | ret a => exact h
  | fail e => exact h
  | call c next ih =>
    intro choice hchoice
    obtain ⟨choice', hchoice', hsem'⟩ := hcalls c choice s hchoice
    have hcall := h choice' hchoice'
    rw [hsem']
    cases hsem : sem c choice' s with
    | ok reply =>
      rw [hsem] at hcall
      exact ih reply.1 hcall
    | error e =>
      rw [hsem] at hcall
      exact hcall

/-- Without tolerated failures the execution has a result. -/
theorem Meets.exec_ok {p : Prog Reply ε α} {m : Machine Choice σ} {Q : α → σ → Prop}
    (h : p.Meets sem ok (fun _ => False) m.state Q) (hfair : m.Fair ok) :
    ∃ a m', p.exec sem m = .ok (a, m') ∧ m'.Fair ok ∧ Q a m'.state := by
  rcases h.exec hfair with hok | ⟨e, _, hnone⟩
  · exact hok
  · exact hnone.elim

/-- The choices left over are among those there were. -/
theorem exec_fair {p : Prog Reply ε α} {m m' : Machine Choice σ} {a : α} (h : p.exec sem m = .ok (a, m'))
    (hfair : m.Fair ok) : m'.Fair ok := by
  induction p generalizing m with
  | ret b =>
    cases h
    exact hfair
  | fail e => cases h
  | call c next ih =>
    simp only [Prog.exec] at h
    cases hsem : sem c (m.choices 0) m.state with
    | ok reply =>
      rw [hsem] at h
      exact ih reply.1 h fun n => hfair (n + 1)
    | error e =>
      rw [hsem] at h
      cases h

/-- Every call a computation may make is in `P`. -/
def Only (P : Call → Prop) : Prog Reply ε α → Prop
  | ret _ => True
  | fail _ => True
  | call c next => P c ∧ ∀ r, (next r).Only P

theorem Only.bind {P : Call → Prop} {p : Prog Reply ε α} {f : α → Prog Reply ε β} (h : p.Only P)
    (hrest : ∀ a, (f a).Only P) : (p >>= f).Only P := by
  induction p with
  | ret a => exact hrest a
  | fail e => trivial
  | call c next ih => exact ⟨h.1, fun r => ih r (h.2 r)⟩

/-- The frame rule: what every call in `P` leaves alone, a computation of such
calls leaves alone. -/
theorem Only.frame {P : Call → Prop} (kept : σ → σ → Prop) (hrefl : ∀ s, kept s s)
    (htrans : ∀ s s' s'', kept s s' → kept s' s'' → kept s s'')
    (hcall : ∀ c choice s r s', P c → sem c choice s = .ok (r, s') → kept s s')
    {p : Prog Reply ε α} (h : p.Only P) {m m' : Machine Choice σ} {a : α}
    (hexec : p.exec sem m = .ok (a, m')) : kept m.state m'.state := by
  induction p generalizing m with
  | ret b =>
    simp only [Prog.exec, Except.ok.injEq, Prod.mk.injEq] at hexec
    rw [hexec.2]
    exact hrefl _
  | fail e => cases hexec
  | call c next ih =>
    simp only [Prog.exec] at hexec
    cases hsem : sem c (m.choices 0) m.state with
    | ok reply =>
      rw [hsem] at hexec
      exact htrans _ _ _ (hcall c _ _ reply.1 reply.2 h.1 hsem) (ih reply.1 (h.2 reply.1) hexec)
    | error e =>
      rw [hsem] at hexec
      cases hexec

/-- The frame rule for what a computation meets. -/
theorem Meets.frame {P : Call → Prop} (kept : σ → σ → Prop) (hrefl : ∀ s, kept s s)
    (htrans : ∀ s s' s'', kept s s' → kept s' s'' → kept s s'')
    (hcall : ∀ c choice s r s', P c → sem c choice s = .ok (r, s') → kept s s') {p : Prog Reply ε α} {s : σ}
    {Q : α → σ → Prop} (h : p.Meets sem ok tolerated s Q) (honly : p.Only P) :
    p.Meets sem ok tolerated s fun a s' => Q a s' ∧ kept s s' := by
  induction p generalizing s with
  | ret a => exact ⟨h, hrefl s⟩
  | fail e => exact h
  | call c next ih =>
    intro choice hchoice
    have hmeets := h choice hchoice
    cases hsem : sem c choice s with
    | ok reply =>
      rw [hsem] at hmeets
      have hfirst := hcall c choice s reply.1 reply.2 honly.1 hsem
      refine (ih reply.1 hmeets (honly.2 reply.1)).mono (fun _ he => he) ?_
      rintro a s' ⟨hpost, hkept⟩
      exact ⟨hpost, htrans s reply.2 s' hfirst hkept⟩
    | error e =>
      rw [hsem] at hmeets
      exact hmeets

/-- From a state, and whatever choices are made, every call that a computation
comes to make is in `P`, and it does not give up with a failure in `bad`. -/
def Always (sem : Sem Reply Choice σ ε) (P : Call → Prop) (bad : ε → Prop) : Prog Reply ε α → σ → Prop
  | ret _, _ => True
  | fail e, _ => ¬ bad e
  | call c next, s => P c ∧ ∀ choice r s', sem c choice s = .ok (r, s') → (next r).Always sem P bad s'

theorem Always.bind {P : Call → Prop} {bad : ε → Prop} {p : Prog Reply ε α} {f : α → Prog Reply ε β} {s : σ}
    (h : p.Always sem P bad s) (hrest : ∀ a s', (f a).Always sem P bad s') : (p >>= f).Always sem P bad s := by
  induction p generalizing s with
  | ret a => exact hrest a s
  | fail e => exact h
  | call c next ih => exact ⟨h.1, fun choice r s' hsem => ih r (h.2 choice r s' hsem)⟩

/-- What follows a computation that never has a result does not matter. -/
theorem Always.bind_of_fails [Nonempty Choice] {P : Call → Prop} {bad : ε → Prop} {p : Prog Reply ε α}
    {f : α → Prog Reply ε β} {s : σ} (h : p.Always sem P bad s)
    (hfails : ∀ choices : Nat → Choice, ∃ e, p.exec sem { state := s, choices } = .error e) :
    (p >>= f).Always sem P bad s := by
  induction p generalizing s with
  | ret a =>
    obtain ⟨choice⟩ := ‹Nonempty Choice›
    obtain ⟨e, hfail⟩ := hfails fun _ => choice
    cases hfail
  | fail e => exact h
  | call c next ih =>
    refine ⟨h.1, fun choice r s' hsem => ih r (h.2 choice r s' hsem) fun choices => ?_⟩
    -- the choice of the call, and then those of the rest
    obtain ⟨e, hfail⟩ := hfails fun n => if n = 0 then choice else choices (n - 1)
    refine ⟨e, ?_⟩
    simpa [Prog.exec, hsem] using hfail

/-- What holds of a computation holds of its beginning. -/
theorem Always.of_bind {P : Call → Prop} {bad : ε → Prop} {p : Prog Reply ε α} {f : α → Prog Reply ε β} {s : σ}
    (h : (p >>= f).Always sem P bad s) : p.Always sem P bad s := by
  induction p generalizing s with
  | ret a => trivial
  | fail e => exact h
  | call c next ih => exact ⟨h.1, fun choice r s' hsem => ih r (h.2 choice r s' hsem)⟩

end Prog

end lib
