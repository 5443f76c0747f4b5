import Mathlib.Logic.Function.Basic

namespace lib

/-- What a thread must not do with a lock that cannot be taken twice. -/
inductive Misuse (L : Type) where
  | taken (l : L)
  | not_held (l : L)

/-- A state together with the locks that a thread holds. -/
structure Holding (L σ : Type) where
  held : L → Bool
  state : σ

/-- What a thread does to a state while it takes and releases locks. -/
abbrev Locking (L σ : Type) := StateT (Holding L σ) (Except (Misuse L))

namespace Locking

variable {L σ α β : Type}

/-- What happens to the state between two calls on locks. -/
def perform (f : σ → α × σ) : Locking L σ α := fun s => .ok ((f s.state).1, { s with state := (f s.state).2 })

theorem pure_run (a : α) (s : Holding L σ) : (pure a : Locking L σ α) s = .ok (a, s) := rfl

theorem perform_run (f : σ → α × σ) (held : L → Bool) (state : σ) :
    (perform f : Locking L σ α) { held, state } = .ok ((f state).1, { held, state := (f state).2 }) := rfl

theorem perform_bind (f : σ → α × σ) (next : α → Locking L σ β) (held : L → Bool) (state : σ) :
    (perform f >>= next) { held, state } = next (f state).1 { held, state := (f state).2 } := rfl

theorem bind_run {p : Locking L σ α} {s s' : Holding L σ} {a : α} (h : p s = .ok (a, s')) (next : α → Locking L σ β) :
    (p >>= next) s = next a s' := by
  simp [bind, StateT.bind, Except.bind, h]

variable [DecidableEq L]

def spin_lock (l : L) : Locking L σ Unit := fun s =>
  if s.held l then .error (.taken l) else .ok ((), { s with held := Function.update s.held l true })

def spin_unlock (l : L) : Locking L σ Unit := fun s =>
  if s.held l then .ok ((), { s with held := Function.update s.held l false }) else .error (.not_held l)

variable {held : L → Bool} {l : L}

theorem spin_lock_bind (h : held l = false) (next : Unit → Locking L σ β) (state : σ) :
    (spin_lock l >>= next) { held, state } = next () { held := Function.update held l true, state } := by
  simp [spin_lock, bind, StateT.bind, Except.bind, h]

theorem spin_unlock_bind (h : held l = true) (next : Unit → Locking L σ β) (state : σ) :
    (spin_unlock l >>= next) { held, state } = next () { held := Function.update held l false, state } := by
  simp [spin_unlock, bind, StateT.bind, Except.bind, h]

/-- What follows a lock need only agree where the lock is held. -/
theorem spin_lock_congr {next next' : Unit → Locking L σ β} {state : σ}
    (h : next () { held := Function.update held l true, state } = next' () { held := Function.update held l true, state }) :
    (spin_lock l >>= next) { held, state } = (spin_lock l >>= next') { held, state } := by
  cases hheld : held l with
  | false => rw [spin_lock_bind hheld, spin_lock_bind hheld, h]
  | true => simp [spin_lock, bind, StateT.bind, Except.bind, hheld]

theorem spin_unlock_congr {next next' : Unit → Locking L σ β} {state : σ}
    (h : next () { held := Function.update held l false, state } = next' () { held := Function.update held l false, state }) :
    (spin_unlock l >>= next) { held, state } = (spin_unlock l >>= next') { held, state } := by
  cases hheld : held l with
  | true => rw [spin_unlock_bind hheld, spin_unlock_bind hheld, h]
  | false => simp [spin_unlock, bind, StateT.bind, Except.bind, hheld]

/-- Taking a lock and releasing it. -/
theorem update_lock_unlock (h : held l = false) : Function.update (Function.update held l true) l false = held := by
  rw [Function.update_idem, ← h, Function.update_eq_self]

/-- Releasing a lock and taking it again. -/
theorem update_unlock_lock (h : held l = true) : Function.update (Function.update held l false) l true = held := by
  rw [Function.update_idem, ← h, Function.update_eq_self]

/-- A section under a lock, which gives the lock back. -/
theorem section_bind (h : held l = false) (f : σ → α × σ) (next : α → Locking L σ β) (state : σ) :
    (do spin_lock l; let a ← perform f; spin_unlock l; next a : Locking L σ β) { held, state } =
      next (f state).1 { held, state := (f state).2 } := by
  rw [spin_lock_bind h, perform_bind, spin_unlock_bind (Function.update_self ..), update_lock_unlock h]

end Locking

end lib
