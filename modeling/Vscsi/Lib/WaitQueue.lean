import Vscsi.Lib.Run
import Mathlib.Logic.Function.Basic

namespace lib

/-- How far a process is in a wait for a condition: not in it, about to get ready
to sleep, ready and about to look at the condition once more, or asleep. The
last two say whether it has been woken since it got ready. -/
inductive Waiting where
  | outside
  | entering
  | prepared (woken : Bool)
  | blocked (woken : Bool)
  deriving DecidableEq

namespace Waiting

/-- A process is made runnable if it is ready to sleep. -/
def wake : Waiting → Waiting
  | prepared _ => prepared true
  | blocked _ => blocked true
  | w => w

/-- How many steps bring an awake process out of the wait when the condition holds. -/
def left : Waiting → Nat
  | outside => 0
  | prepared _ => 1
  | entering => 2
  | blocked _ => 3

theorem left_le (w : Waiting) : w.left ≤ 3 := by
  cases w <;> simp [left]

theorem wake_ne_asleep (w : Waiting) : w.wake ≠ .blocked false := by
  cases w <;> nofun

end Waiting

/-- A state with the processes that wait for a condition on it. `pending` counts the
changes of the state whose wake-up is still to come. -/
structure WaitQueue (T σ : Type) where
  state : σ
  waiting : T → Waiting
  pending : Nat

/-- A step of a process through its wait, a change of the state, or a wake-up. -/
inductive WaitAct (T ι : Type) where
  | enter (t : T)
  | prepare (t : T)
  | check (t : T)
  | resume (t : T)
  | interrupt (t : T)
  | update (i : ι)
  | wake

/-- The process whose own step it is. -/
def WaitAct.process? {T ι : Type} : WaitAct T ι → Option T
  | enter t => some t
  | prepare t => some t
  | check t => some t
  | resume t => some t
  | interrupt t => some t
  | update _ => none
  | wake => none

namespace WaitQueue

variable {T σ ι : Type}

/-- Nobody waits. -/
def idle (state : σ) : WaitQueue T σ where
  state
  waiting _ := .outside
  pending := 0

variable [DecidableEq T]

def put (x : WaitQueue T σ) (t : T) (w : Waiting) : WaitQueue T σ :=
  { x with waiting := Function.update x.waiting t w }

/-- `wait_event_interruptible` and `wake_up_interruptible`, one step at a time. The
condition is looked at without a lock; `wakes` says which changes a wake-up follows. -/
def Step (cond : σ → Bool) (Update : σ → ι → σ → Prop) (wakes : σ → ι → Bool) (x : WaitQueue T σ)
    (act : WaitAct T ι) (x' : WaitQueue T σ) : Prop :=
  match act with
  | .enter t => x.waiting t = .outside ∧ x' = x.put t (if cond x.state then .outside else .entering)
  | .prepare t => x.waiting t = .entering ∧ x' = x.put t (.prepared false)
  | .check t => ∃ woken, x.waiting t = .prepared woken ∧
      x' = x.put t (if cond x.state then .outside else .blocked woken)
  | .resume t => x.waiting t = .blocked true ∧ x' = x.put t .entering
  -- a signal is noticed where the condition has been found false
  | .interrupt t => (∃ woken, x.waiting t = .blocked woken) ∧ x' = x.put t .outside
  | .update i => ∃ state, Update x.state i state ∧
      x' = { x with state, pending := if wakes x.state i then x.pending + 1 else x.pending }
  | .wake => 0 < x.pending ∧ x' = { x with waiting := fun t => (x.waiting t).wake, pending := x.pending - 1 }

@[simp] theorem put_waiting (x : WaitQueue T σ) (t : T) (w : Waiting) : (x.put t w).waiting t = w :=
  Function.update_self ..

@[simp] theorem put_put (x : WaitQueue T σ) (t : T) (w w' : Waiting) : (x.put t w).put t w' = x.put t w' := by
  simp [put]

theorem put_same {x : WaitQueue T σ} {t : T} {w : Waiting} (h : x.waiting t = w) : x.put t w = x := by
  rw [put, ← h, Function.update_eq_self]

variable {cond : σ → Bool} {Update : σ → ι → σ → Prop} {wakes : σ → ι → Bool} {I : σ → Prop} {x x' : WaitQueue T σ}
  {act : WaitAct T ι} {t : T}

/-- Nobody sleeps although the condition holds, unless a wake-up is still to come. -/
def Sound (cond : σ → Bool) (x : WaitQueue T σ) : Prop :=
  ∀ t, x.waiting t = .blocked false → cond x.state = true → 0 < x.pending

/-- A process that moves on its own falls asleep only if the condition is false. -/
theorem Sound.moved (h : x.Sound cond) {w : Waiting} (hasleep : w = .blocked false → cond x.state = false) :
    (x.put t w).Sound cond := by
  intro t' hwaiting hcond
  by_cases heq : t' = t
  · subst heq
    have hfalse := hasleep ((x.put_waiting t' w).symm.trans hwaiting)
    rw [show cond x.state = true from hcond] at hfalse
    cases hfalse
  · exact h t' ((Function.update_of_ne heq ..).symm.trans hwaiting) hcond

theorem Sound.step (h : x.Sound cond) (hwakes : ∀ i state, Update x.state i state → cond x.state = false →
    cond state = true → wakes x.state i = true) (hstep : x.Step cond Update wakes act x') : x'.Sound cond := by
  cases act with
  | enter t =>
    obtain ⟨-, rfl⟩ := hstep
    exact h.moved (by split <;> nofun)
  | prepare t =>
    obtain ⟨-, rfl⟩ := hstep
    exact h.moved nofun
  | check t =>
    obtain ⟨woken, -, rfl⟩ := hstep
    refine h.moved ?_
    split
    · nofun
    · next hcond => exact fun _ => Bool.eq_false_iff.mpr hcond
  | resume t =>
    obtain ⟨-, rfl⟩ := hstep
    exact h.moved nofun
  | interrupt t =>
    obtain ⟨-, rfl⟩ := hstep
    exact h.moved nofun
  | update i =>
    obtain ⟨state, hupdate, rfl⟩ := hstep
    intro t hwaiting hcond
    cases hbefore : cond x.state with
    | true =>
      have hpending := h t hwaiting hbefore
      dsimp only
      split <;> omega
    | false =>
      rw [if_pos (hwakes i state hupdate hbefore hcond)]
      exact Nat.succ_pos _
  | wake =>
    obtain ⟨-, rfl⟩ := hstep
    exact fun t hwaiting => absurd hwaiting (Waiting.wake_ne_asleep _)

/-- No wake-up is lost if one follows every change that makes the condition true. -/
theorem Sound.reachable {state : σ} (hstart : I state) (hkeeps : ∀ s i s', I s → Update s i s' → I s')
    (hwakes : ∀ s i s', I s → Update s i s' → cond s = false → cond s' = true → wakes s i = true)
    (hreach : Reachable (Step cond Update wakes) (idle state) x) : I x.state ∧ x.Sound cond := by
  have hidle : (idle state : WaitQueue T σ).Sound cond := by
    intro t hwaiting
    cases hwaiting
  refine hreach.invariant (P := fun x : WaitQueue T σ => I x.state ∧ x.Sound cond) ⟨hstart, hidle⟩ ?_
  rintro x act x' ⟨hinv, hsound⟩ hstep
  refine ⟨?_, hsound.step (fun i s' hupdate => hwakes x.state i s' hinv hupdate) hstep⟩
  cases act with
  | update i =>
    obtain ⟨state, hupdate, rfl⟩ := hstep
    exact hkeeps x.state i state hinv hupdate
  | check t =>
    obtain ⟨woken, -, rfl⟩ := hstep
    exact hinv
  | _ =>
    obtain ⟨-, rfl⟩ := hstep
    exact hinv

/-- Once all wake-ups have come, each process in the wait has a step of its own
towards its end. -/
theorem Sound.advances (h : x.Sound cond) (hcond : cond x.state = true) (hpending : x.pending = 0)
    (hwaits : x.waiting t ≠ .outside) : ∃ act w, act.process? = some t ∧ x.Step cond Update wakes act (x.put t w) ∧
      w ≠ .blocked false ∧ w.left < (x.waiting t).left := by
  cases hwaiting : x.waiting t with
  | outside => exact absurd hwaiting hwaits
  | entering => exact ⟨.prepare t, .prepared false, rfl, ⟨hwaiting, rfl⟩, nofun, Nat.lt_succ_self 1⟩
  | prepared woken =>
    exact ⟨.check t, .outside, rfl, ⟨woken, hwaiting, by rw [if_pos hcond]⟩, nofun, Nat.zero_lt_one⟩
  | blocked woken =>
    cases woken with
    | true => exact ⟨.resume t, .entering, rfl, ⟨hwaiting, rfl⟩, nofun, Nat.lt_succ_self 2⟩
    | false =>
      have hpos := h t hwaiting hcond
      omega

/-- It leaves the wait by at most three steps of its own. -/
theorem Sound.leaves (h : x.Sound cond) (hcond : cond x.state = true) (hpending : x.pending = 0) (t : T) :
    ∃ trace, Run (Step cond Update wakes) x trace (x.put t .outside) ∧ (∀ e ∈ trace, e.2.process? = some t) ∧
      trace.length ≤ (x.waiting t).left := by
  generalize hleft : (x.waiting t).left = left
  induction left using Nat.strongRecOn generalizing x with
  | ind left ih =>
    by_cases hwaits : x.waiting t = .outside
    · refine ⟨[], ?_, nofun, Nat.zero_le _⟩
      rw [put_same hwaits]
      exact .nil
    · obtain ⟨act, w, hact, hstep, hasleep, hless⟩ : ∃ act w, act.process? = some t ∧
        x.Step cond Update wakes act (x.put t w) ∧ w ≠ .blocked false ∧ w.left < (x.waiting t).left :=
        h.advances hcond hpending hwaits
      have hw : ((x.put t w).waiting t).left < left := by
        rwa [put_waiting, ← hleft]
      obtain ⟨trace, hrun, hown, hlength⟩ := ih _ hw (h.moved fun hw => absurd hw hasleep) hcond hpending rfl
      rw [put_put] at hrun
      refine ⟨(x, act) :: trace, (Run.nil.snoc hstep).append hrun, ?_, ?_⟩
      · intro e he
        rcases List.mem_cons.mp he with rfl | he
        · exact hact
        · exact hown e he
      · exact Nat.succ_le_of_lt (Nat.lt_of_le_of_lt hlength hw)

end WaitQueue

end lib
