import Vscsi.Lib.Locks
import Vscsi.Lib.Program
import Vscsi.Lib.Run
import Mathlib.Logic.Relation

namespace lib

/-- What a thread does in one go; others can come between any two of these. -/
inductive ThreadCall (L σ : Type) where
  | lock (l : L)
  | unlock (l : L)
  | access (f : σ → σ)

/-- An access replies with the state that it has found. -/
abbrev ThreadCall.Reply {L σ : Type} : ThreadCall L σ → Type
  | lock _ => Unit
  | unlock _ => Unit
  | access _ => σ

/-- A program that shares its state with others and takes locks. -/
abbrev Thread (L σ α : Type) := Prog (@ThreadCall.Reply L σ) Empty α

namespace Thread

variable {L σ α β : Type}

def spin_lock (l : L) : Thread L σ Unit := .call (.lock l) fun _ => .ret ()

def spin_unlock (l : L) : Thread L σ Unit := .call (.unlock l) fun _ => .ret ()

def perform (f : σ → α × σ) : Thread L σ α := .call (.access fun s => (f s).2) fun s => .ret (f s).1

section Alone

variable [DecidableEq L]

/-- The program when no other comes between. -/
def alone : Thread L σ α → Locking L σ α
  | .ret a => pure a
  | .call (.lock l) next => Locking.spin_lock l >>= fun _ => alone (next ())
  | .call (.unlock l) next => Locking.spin_unlock l >>= fun _ => alone (next ())
  | .call (.access f) next => Locking.perform (fun s => (s, f s)) >>= fun s => alone (next s)

theorem alone_bind (p : Thread L σ α) (f : α → Thread L σ β) : (p >>= f).alone = p.alone >>= fun a => (f a).alone := by
  induction p with
  | ret a => rw [Prog.ret_bind, alone, pure_bind]
  | fail e => exact e.elim
  | call c next ih => cases c <;> simp only [Prog.call_bind, alone, ih, bind_assoc]

theorem alone_spin_lock (l : L) : (spin_lock l : Thread L σ Unit).alone = Locking.spin_lock l := bind_pure _

theorem alone_spin_unlock (l : L) : (spin_unlock l : Thread L σ Unit).alone = Locking.spin_unlock l := bind_pure _

theorem alone_perform (f : σ → α × σ) : (perform f : Thread L σ α).alone = Locking.perform f := rfl

end Alone

/-- Locks are taken in the order of their ranks, and only what is held is released.
`Q` says what may be held at the end, besides what is returned. -/
def Orderly (rank : L → Nat) (Q : α → (L → Prop) → Prop) : Thread L σ α → (L → Prop) → Prop
  | .ret a, held => Q a held
  | .call (.lock l) next, held => (∀ l', held l' → rank l' < rank l) ∧ Orderly rank Q (next ()) fun l' => l' = l ∨ held l'
  | .call (.unlock l) next, held => held l ∧ Orderly rank Q (next ()) fun l' => l' ≠ l ∧ held l'
  | .call (.access _) next, held => ∀ s, Orderly rank Q (next s) held

variable {rank : L → Nat} {Q : α → (L → Prop) → Prop} {Q' : β → (L → Prop) → Prop} {p : Thread L σ α}
  {f : α → Thread L σ β} {held : L → Prop} {l : L}

theorem Orderly.bind (h : p.Orderly rank Q held) (hf : ∀ a held', Q a held' → (f a).Orderly rank Q' held') :
    (p >>= f).Orderly rank Q' held := by
  induction p generalizing held with
  | ret a => exact hf a held h
  | fail e => exact e.elim
  | call c next ih =>
    cases c with
    | lock l => exact ⟨h.1, ih () h.2⟩
    | unlock l => exact ⟨h.1, ih () h.2⟩
    | access g => exact fun s => ih s (h s)

theorem Orderly.mono {Q₁ : α → (L → Prop) → Prop} (h : p.Orderly rank Q held)
    (hQ : ∀ a held', Q a held' → Q₁ a held') : p.Orderly rank Q₁ held := by
  induction p generalizing held with
  | ret a => exact hQ a held h
  | fail e => exact e.elim
  | call c next ih =>
    cases c with
    | lock l => exact ⟨h.1, ih () h.2⟩
    | unlock l => exact ⟨h.1, ih () h.2⟩
    | access g => exact fun s => ih s (h s)

theorem Orderly.of_iff {held' : L → Prop} (h : p.Orderly rank Q held) (heq : ∀ l, held' l ↔ held l) :
    p.Orderly rank Q held' := by
  rwa [show held' = held from funext fun l => propext (heq l)]

end Thread

/-- Programs that run at the same time, with what is left of each. -/
structure Threads (T L σ α : Type) where
  state : σ
  owner : L → Option T
  rest : T → Thread L σ α

namespace Threads

variable {T L σ α : Type}

/-- The threads as they start: no lock is held. -/
def start (state : σ) (programs : T → Thread L σ α) : Threads T L σ α where
  state
  owner _ := none
  rest := programs

/-- A thread has returned. -/
def Returned (c : Threads T L σ α) (t : T) (a : α) : Prop := c.rest t = .ret a

/-- A thread can go on only when another gives a lock back. -/
def Waits (c : Threads T L σ α) (t t' : T) : Prop :=
  ∃ l next, c.rest t = .call (.lock l) next ∧ c.owner l = some t'

section Steps

variable [DecidableEq T] [DecidableEq L]

/-- The next step of a thread: none if it has returned or waits for a lock. -/
def step (c : Threads T L σ α) (t : T) : Option (Threads T L σ α) :=
  match c.rest t with
  | .ret _ => none
  | .call (.lock l) next =>
    if c.owner l = none then
      some { c with owner := Function.update c.owner l (some t), rest := Function.update c.rest t (next ()) }
    else none
  | .call (.unlock l) next =>
    if c.owner l = some t then
      some { c with owner := Function.update c.owner l none, rest := Function.update c.rest t (next ()) }
    else none
  | .call (.access f) next => some { c with state := f c.state, rest := Function.update c.rest t (next c.state) }

def Step (c : Threads T L σ α) (t : T) (c' : Threads T L σ α) : Prop := c.step t = some c'

/-- What a step can do. -/
inductive Change (c : Threads T L σ α) (t : T) : Threads T L σ α → Prop where
  | lock (l : L) (next : Unit → Thread L σ α) (hrest : c.rest t = .call (.lock l) next) (hfree : c.owner l = none) :
      Change c t
        { c with owner := Function.update c.owner l (some t), rest := Function.update c.rest t (next ()) }
  | unlock (l : L) (next : Unit → Thread L σ α) (hrest : c.rest t = .call (.unlock l) next) (hown : c.owner l = some t) :
      Change c t { c with owner := Function.update c.owner l none, rest := Function.update c.rest t (next ()) }
  | access (f : σ → σ) (next : σ → Thread L σ α) (hrest : c.rest t = .call (.access f) next) :
      Change c t { c with state := f c.state, rest := Function.update c.rest t (next c.state) }

variable {c c' : Threads T L σ α} {t : T} {rank : L → Nat} {Q : T → α → (L → Prop) → Prop}

theorem step_change (h : c.Step t c') : c.Change t c' := by
  unfold Step step at h
  split at h
  · cases h
  · next l next hrest =>
    split at h
    · next hfree =>
      cases h
      exact .lock l next hrest hfree
    · cases h
  · next l next hrest =>
    split at h
    · next hown =>
      cases h
      exact .unlock l next hrest hown
    · cases h
  · next f next hrest =>
    cases h
    exact .access f next hrest

/-- Every thread is orderly, with the locks that it holds. -/
def Ordered (rank : L → Nat) (Q : T → α → (L → Prop) → Prop) (c : Threads T L σ α) : Prop :=
  ∀ t, (c.rest t).Orderly rank (Q t) fun l => c.owner l = some t

theorem Ordered.step (h : c.Ordered rank Q) (hstep : c.Step t c') : c'.Ordered rank Q := by
  intro t'
  have hown := h t
  cases step_change hstep with
  | lock l next hrest hfree =>
    rw [hrest] at hown
    by_cases heq : t' = t
    · subst heq
      simp only [Function.update_self]
      refine hown.2.of_iff fun l' => ?_
      by_cases hl : l' = l <;> simp [hl]
    · simp only [Function.update_of_ne heq]
      refine (h t').of_iff fun l' => ?_
      by_cases hl : l' = l
      · simp [hl, hfree, Ne.symm heq]
      · simp [hl]
  | unlock l next hrest hheld =>
    rw [hrest] at hown
    by_cases heq : t' = t
    · subst heq
      simp only [Function.update_self]
      refine hown.2.of_iff fun l' => ?_
      by_cases hl : l' = l <;> simp [hl]
    · simp only [Function.update_of_ne heq]
      refine (h t').of_iff fun l' => ?_
      by_cases hl : l' = l
      · simp [hl, hheld, Ne.symm heq]
      · simp [hl]
  | access f next hrest =>
    rw [hrest] at hown
    by_cases heq : t' = t
    · subst heq
      simpa only [Function.update_self] using hown c.state
    · simpa only [Function.update_of_ne heq] using h t'

theorem Ordered.reachable (h : c.Ordered rank Q) (hreach : Reachable Step c c') : c'.Ordered rank Q :=
  hreach.invariant h fun _ _ _ hordered hstep => hordered.step hstep

/-- A thread that neither has returned nor can go on waits for a lock that ranks
higher than all that it holds. -/
theorem Ordered.moves (h : c.Ordered rank Q) (t : T) : (∃ c', c.Step t c') ∨ (∃ a, c.Returned t a) ∨
    ∃ l t', c.Waits t t' ∧ c.owner l = some t' ∧ ∀ l', c.owner l' = some t → rank l' < rank l := by
  have hown := h t
  simp only [Step, Threads.step, Returned, Waits]
  cases hrest : c.rest t with
  | ret a => exact .inr (.inl ⟨a, rfl⟩)
  | fail e => exact e.elim
  | call call next =>
    rw [hrest] at hown
    cases call with
    | lock l =>
      cases howner : c.owner l with
      | none => exact .inl ⟨_, if_pos howner⟩
      | some t' => exact .inr (.inr ⟨l, t', ⟨l, next, rfl, howner⟩, howner, hown.1⟩)
    | unlock l => exact .inl ⟨_, if_pos hown.1⟩
    | access f => exact .inl ⟨_, rfl⟩

/-- A thread that has returned keeps the locks that it holds. -/
theorem Returned.kept {a : α} {l : L} {t' : T} (h : c.Returned t' a) (howner : c.owner l = some t')
    (hreach : Reachable Step c c') : c'.Returned t' a ∧ c'.owner l = some t' := by
  refine hreach.invariant (P := fun c => c.Returned t' a ∧ c.owner l = some t') ⟨h, howner⟩ ?_
  rintro c t c' ⟨hreturned, howner⟩ hstep
  have hne {call next} (hrest : c.rest t = .call call next) : t' ≠ t := by
    rintro rfl
    cases hrest.symm.trans hreturned
  cases step_change hstep with
  | lock l' next hrest hfree =>
    have hl : l ≠ l' := by
      rintro rfl
      cases hfree.symm.trans howner
    exact ⟨(Function.update_of_ne (hne hrest) ..).trans hreturned, (Function.update_of_ne hl ..).trans howner⟩
  | unlock l' next hrest hheld =>
    have hl : l ≠ l' := by
      rintro rfl
      exact hne hrest (Option.some.inj (howner.symm.trans hheld))
    exact ⟨(Function.update_of_ne (hne hrest) ..).trans hreturned, (Function.update_of_ne hl ..).trans howner⟩
  | access f next hrest => exact ⟨(Function.update_of_ne (hne hrest) ..).trans hreturned, howner⟩

end Steps

end Threads

end lib
