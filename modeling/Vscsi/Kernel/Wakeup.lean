import Vscsi.Lib.WaitQueue
import Vscsi.Kernel.Evolve

open lib

namespace vscsi

open hba device

namespace Hba

/-- What a read of the control device waits for: `! list_empty` of the queue. -/
def queued (k : Hba) : Bool := !k.session.scsitap_queue.isEmpty

/-- A command that joins the queue is followed by a wake-up. -/
def wakes (k : Hba) : Op → Bool
  | .queuecommand _ (some _) => k.session.flags = .ready
  | _ => false

/-- The readers of a session in their waits, while calls are made. -/
abbrev WaitStep {T : Type} [DecidableEq T] : WaitQueue T Hba → WaitAct T Op → WaitQueue T Hba → Prop :=
  WaitQueue.Step queued Step wakes

variable {k : Hba} {op : Op}

theorem queued_iff : k.queued = true ↔ k.session.scsitap_queue ≠ [] := by
  simp [queued]

theorem not_queued_iff : k.queued = false ↔ k.session.scsitap_queue = [] := by
  simp [queued]

/-- Nothing but a submission that is accepted makes the queue nonempty. -/
theorem Valid.wakes_of_queued (h : k.Valid) (hallowed : k.Allowed op) (hbefore : k.queued = false)
    (hafter : (k.apply op).queued = true) : k.wakes op = true := by
  have hempty := not_queued_iff.mp hbefore
  have hnonempty := queued_iff.mp hafter
  have hturned {sc : Addr} {k' : Hba} (ha : TurnedAway k sc k') (hqueue : k'.session.scsitap_queue ≠ []) : False := by
    rw [ha.session] at hqueue
    exact hqueue hempty
  by_cases hop : ∀ sc slot, op ≠ .queuecommand sc slot
  · obtain ⟨task, htask⟩ := List.exists_mem_of_ne_nil _ hnonempty
    have hkept := ((h.apply_evolves hallowed hop).kept task htask).queued
    rw [show k.queue = [] from hempty] at hkept
    cases hkept
  · obtain ⟨sc, slot, rfl⟩ : ∃ sc slot, op = .queuecommand sc slot := by simpa using hop
    by_cases hready : k.session.flags = .ready
    · cases slot with
      | some task => exact decide_eq_true hready
      | none => exact (hturned (scsitap_queuecommand_busy k sc hready).2 hnonempty).elim
    · exact (hturned (scsitap_queuecommand_refused k sc slot hready (h.idle_ptr hallowed.1)).2 hnonempty).elim

variable {T : Type} [DecidableEq T] {x : WaitQueue T Hba}

theorem wait_sound (hinitial : Initial k) (hreach : lib.Reachable WaitStep (WaitQueue.idle k) x) :
    x.state.Valid ∧ x.Sound queued := by
  refine WaitQueue.Sound.reachable (I := Valid) (.initial hinitial) ?_ ?_ hreach
  · rintro k op k' hvalid ⟨-, -, hallowed, rfl⟩
    exact hvalid.apply op hallowed
  · rintro k op k' hvalid ⟨-, -, hallowed, rfl⟩ hbefore hafter
    exact hvalid.wakes_of_queued hallowed hbefore hafter

/-- No reader sleeps over a command. While one is queued, a reader that sleeps is
woken by a submission that is not over, and once the submissions are over a reader
leaves the wait by at most three steps of its own. -/
theorem readers_woken (hinitial : Initial k) (hreach : lib.Reachable WaitStep (WaitQueue.idle k) x)
    (hqueued : x.state.session.scsitap_queue ≠ []) (t : T) :
    (x.waiting t = .blocked false → 0 < x.pending) ∧
      (x.pending = 0 → ∃ trace, Run WaitStep x trace (x.put t .outside) ∧ (∀ e ∈ trace, e.2.process? = some t) ∧
        trace.length ≤ 3) := by
  obtain ⟨-, hsound⟩ := wait_sound hinitial hreach
  have hcond := queued_iff.mpr hqueued
  refine ⟨fun hasleep => hsound t hasleep hcond, fun hpending => ?_⟩
  obtain ⟨trace, hrun, hown, hlength⟩ := hsound.leaves hcond hpending t
  exact ⟨trace, hrun, hown, Nat.le_trans hlength (Waiting.left_le _)⟩

/-- A reader has gone to sleep in a session with two targets. -/
def asleep : WaitQueue Unit Hba :=
  (((WaitQueue.idle twoTargets).put () .entering).put () (.prepared false)).put () (.blocked false)

/-- A command has been queued for it. -/
def overslept : WaitQueue Unit Hba := { asleep with state := oneCommand, pending := 1 }

theorem overslept_reachable : lib.Reachable WaitStep (WaitQueue.idle fresh) overslept := by
  let entering : WaitQueue Unit Hba := (WaitQueue.idle twoTargets).put () .entering
  let prepared : WaitQueue Unit Hba := entering.put () (.prepared false)
  have hregister : WaitStep (WaitQueue.idle fresh) (.update (.register_client 1))
      (WaitQueue.idle (fresh.apply (.register_client 1)) : WaitQueue Unit Hba) := ⟨_, register_step, rfl⟩
  have hregister' : WaitStep (WaitQueue.idle (fresh.apply (.register_client 1))) (.update (.register_client 2))
      (WaitQueue.idle twoTargets : WaitQueue Unit Hba) := ⟨_, register_step', rfl⟩
  have henter : WaitStep (WaitQueue.idle twoTargets) (.enter ()) entering := ⟨rfl, rfl⟩
  have hprepare : WaitStep entering (.prepare ()) prepared := ⟨rfl, rfl⟩
  have hcheck : WaitStep prepared (.check ()) asleep := ⟨false, rfl, rfl⟩
  have hqueue : WaitStep asleep (.update (.queuecommand 0 (some 8))) overslept := ⟨_, oneCommand_step, rfl⟩
  exact (((((lib.Reachable.refl.tail hregister).tail hregister').tail henter).tail hprepare).tail hcheck).tail hqueue

theorem readers_woken_one_command : overslept.state.session.scsitap_queue ≠ [] ∧ overslept.waiting () = .blocked false ∧
    0 < overslept.pending :=
  have hqueued : overslept.state.session.scsitap_queue ≠ [] := List.cons_ne_nil _ _
  have hasleep : overslept.waiting () = .blocked false := rfl
  ⟨hqueued, hasleep, (readers_woken fresh_initial overslept_reachable hqueued ()).1 hasleep⟩

end Hba

end vscsi
